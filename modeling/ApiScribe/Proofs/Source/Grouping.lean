import ApiScribe.Source.Statement
import Mathlib.Data.List.DropRight

/-! Statements as a partition of the lines they are grouped from. Every head has its own
statement, with the decorators since the head before it and the deeper lines right behind
it. The places of the lines that no statement takes up are told without the grouping. -/
namespace ApiScribe.Source

variable {base : Nat} {lines before rest decorators : List Line} {line : Line}

/-- A line of a list with the lines before and behind it. -/
structure Place where
  before : List Line
  line : Line
  after : List Line

/-- The places of lines that stand behind others. -/
def placesBehind (before : List Line) : List Line → List Place
  | [] => []
  | line :: rest => ⟨before, line, rest⟩ :: placesBehind (before ++ [line]) rest

/-- The places of a list, in their order. -/
def places (lines : List Line) : List Place := placesBehind [] lines

/-- The lines of a statement, as they stand in its list. -/
def Statement.parts (statement : Statement) : List Line :=
  statement.decorators ++ statement.head :: statement.body

namespace Line

/-- A line that begins a statement where `base` is the least indentation. -/
def isHeadAt (base : Nat) (line : Line) : Bool := line.indent == base && !line.isDecorator

def isDecoratorAt (base : Nat) (line : Line) : Bool := line.indent == base && line.isDecorator

def isDeeper (base : Nat) (line : Line) : Bool := base < line.indent

/-- A line that is nowhere less indented than the base is of one of three kinds. -/
theorem kind_at (least : base ≤ line.indent) :
    line.isDeeper base = true ∨ line.isDecoratorAt base = true ∨ line.isHeadAt base = true := by
  by_cases deeper : base < line.indent
  · simp [isDeeper, deeper]
  · have same : line.indent = base := by omega
    cases decorates : line.isDecorator <;> simp [isHeadAt, isDecoratorAt, same, decorates]

private theorem not_head_of_deeper (deeper : line.isDeeper base = true) :
    line.isHeadAt base = false ∧ line.isDecoratorAt base = false := by
  have apart : line.indent ≠ base := by
    simp only [isDeeper, decide_eq_true_eq] at deeper
    omega
  simp [isHeadAt, isDecoratorAt, apart]

private theorem not_head_of_decorator (decorates : line.isDecoratorAt base = true) :
    line.isHeadAt base = false ∧ line.isDeeper base = false := by
  simp only [isDecoratorAt, Bool.and_eq_true, beq_iff_eq] at decorates
  simp [isHeadAt, isDeeper, decorates]

private theorem not_decorator_of_head (heads : line.isHeadAt base = true) :
    line.isDecoratorAt base = false ∧ line.isDeeper base = false := by
  simp only [isHeadAt, Bool.and_eq_true, beq_iff_eq, Bool.not_eq_true'] at heads
  simp [isDecoratorAt, isDeeper, heads]

end Line

/-- The decorators behind the last head of a list. -/
def pending (base : Nat) (before : List Line) : List Line :=
  (before.rtakeWhile fun line => !line.isHeadAt base).filter (·.isDecoratorAt base)

/-- Whether the last line at the base is a head. -/
def endsWithHead (base : Nat) (before : List Line) : Bool :=
  (before.filter fun line => !line.isDeeper base).getLast?.any (·.isHeadAt base)

namespace Place

/-- The statement that a head begins: the decorators since the head before it, the head,
and the run of deeper lines right behind it. -/
def statement (base : Nat) (place : Place) : Statement :=
  ⟨pending base place.before, place.line, place.after.takeWhile (·.isDeeper base)⟩

/-- Whether a line belongs to no statement: a deeper line that follows a decorator or
precedes every line at the base, and a decorator behind the last head. -/
def isLeftOut (base : Nat) (place : Place) : Bool :=
  (place.line.isDeeper base && !endsWithHead base place.before) ||
    (place.line.isDecoratorAt base && !place.after.any (·.isHeadAt base))

/-- A deeper line is left out unless the last line at the base before it is a head. -/
private theorem isLeftOut_deeper (deeper : line.isDeeper base = true) (before after : List Line) :
    isLeftOut base ⟨before, line, after⟩ = !endsWithHead base before := by
  simp [isLeftOut, deeper, Line.not_head_of_deeper deeper]

/-- A decorator is left out if no head follows it. -/
private theorem isLeftOut_decorator (decorates : line.isDecoratorAt base = true)
    (before after : List Line) :
    isLeftOut base ⟨before, line, after⟩ = !after.any (·.isHeadAt base) := by
  simp [isLeftOut, decorates, Line.not_head_of_decorator decorates]

private theorem isLeftOut_head (heads : line.isHeadAt base = true) (before after : List Line) :
    isLeftOut base ⟨before, line, after⟩ = false := by
  simp [isLeftOut, Line.not_decorator_of_head heads]

end Place

/-- Each line has one place. -/
private theorem placesBehind_line (before rest : List Line) :
    (placesBehind before rest).map Place.line = rest := by
  induction rest generalizing before with
  | nil => rfl
  | cons line rest ih => simp [placesBehind, ih]

/-! What a further line does to the decorators that wait, and to the last line at the base. -/

private theorem pending_concat_deeper (deeper : line.isDeeper base = true) (before : List Line) :
    pending base (before ++ [line]) = pending base before := by
  simp [pending, Line.not_head_of_deeper deeper]

private theorem pending_concat_decorator (decorates : line.isDecoratorAt base = true)
    (before : List Line) :
    pending base (before ++ [line]) = pending base before ++ [line] := by
  simp [pending, Line.not_head_of_decorator decorates, decorates]

private theorem pending_concat_head (heads : line.isHeadAt base = true) (before : List Line) :
    pending base (before ++ [line]) = [] := by
  simp [pending, heads]

private theorem endsWithHead_concat_deeper (deeper : line.isDeeper base = true)
    (before : List Line) :
    endsWithHead base (before ++ [line]) = endsWithHead base before := by
  simp [endsWithHead, deeper]

private theorem endsWithHead_concat_decorator (decorates : line.isDecoratorAt base = true)
    (before : List Line) : endsWithHead base (before ++ [line]) = false := by
  simp [endsWithHead, Line.not_head_of_decorator decorates]

private theorem endsWithHead_concat_head (heads : line.isHeadAt base = true) (before : List Line) :
    endsWithHead base (before ++ [line]) = true := by
  simp [endsWithHead, Line.not_decorator_of_head heads, heads]

/-! What a step of the grouping does with each kind of line. -/

private theorem statementsAt_deeper (deeper : line.isDeeper base = true)
    (decorators rest : List Line) :
    statementsAt base decorators (line :: rest) = statementsAt base decorators rest := by
  simp only [Line.isDeeper, decide_eq_true_eq] at deeper
  simp [statementsAt, deeper]

private theorem statementsAt_decorator (decorates : line.isDecoratorAt base = true)
    (decorators rest : List Line) :
    statementsAt base decorators (line :: rest) =
      statementsAt base (decorators ++ [line]) rest := by
  simp only [Line.isDecoratorAt, Bool.and_eq_true, beq_iff_eq] at decorates
  simp [statementsAt, decorates]

private theorem statementsAt_head (heads : line.isHeadAt base = true)
    (decorators rest : List Line) :
    statementsAt base decorators (line :: rest) =
      ⟨decorators, line, rest.takeWhile (·.isDeeper base)⟩ :: statementsAt base [] rest := by
  simp only [Line.isHeadAt, Bool.and_eq_true, beq_iff_eq, Bool.not_eq_true'] at heads
  simp [statementsAt, heads, Line.isDeeper]

/-- The grouping makes one statement of each head, from what stands around it. -/
theorem statementsAt_eq (least : ∀ line ∈ rest, base ≤ line.indent) (before : List Line) :
    statementsAt base (pending base before) rest =
      ((placesBehind before rest).filter fun place => place.line.isHeadAt base).map
        (Place.statement base) := by
  induction rest generalizing before with
  | nil => rfl
  | cons line rest ih =>
    have below := ih (fun later member => least later (List.mem_cons_of_mem line member))
      (before ++ [line])
    rcases Line.kind_at (least line List.mem_cons_self) with deeper | decorates | heads
    · rw [pending_concat_deeper deeper] at below
      simp [statementsAt_deeper deeper, placesBehind, Line.not_head_of_deeper deeper, below]
    · rw [pending_concat_decorator decorates] at below
      simp [statementsAt_decorator decorates, placesBehind,
        Line.not_head_of_decorator decorates, below]
    · rw [pending_concat_head heads] at below
      simp [statementsAt_head heads, placesBehind, heads, below, Place.statement]

/-- Decorators that wait are taken up by the next head, if there is one. -/
theorem parts_pending (least : ∀ line ∈ rest, base ≤ line.indent) (decorators : List Line) :
    (statementsAt base decorators rest).flatMap Statement.parts =
      (if rest.any (·.isHeadAt base) then decorators else []) ++
        (statementsAt base [] rest).flatMap Statement.parts := by
  induction rest generalizing decorators with
  | nil => simp [statementsAt]
  | cons line rest ih =>
    have below := ih fun later member => least later (List.mem_cons_of_mem line member)
    rcases Line.kind_at (least line List.mem_cons_self) with deeper | decorates | heads
    · simp [statementsAt_deeper deeper, Line.not_head_of_deeper deeper, below decorators]
    · rw [statementsAt_decorator decorates, statementsAt_decorator decorates,
        below (decorators ++ [line]), below ([] ++ [line])]
      cases heads : rest.any (·.isHeadAt base) <;>
        simp [Line.not_head_of_decorator decorates, heads]
    · simp [statementsAt_head heads, heads, Statement.parts]

/-- What the statements hold is what is not left out. Behind a head the deeper lines up to
the next line at the base are held by the statement of that head. -/
theorem parts_eq_kept (least : ∀ line ∈ rest, base ≤ line.indent) (before : List Line) :
    (if endsWithHead base before then rest.takeWhile (·.isDeeper base) else []) ++
        (statementsAt base [] rest).flatMap Statement.parts =
      ((placesBehind before rest).filter fun place => !place.isLeftOut base).map Place.line := by
  induction rest generalizing before with
  | nil => simp [statementsAt, placesBehind]
  | cons line rest ih =>
    have least' : ∀ later ∈ rest, base ≤ later.indent :=
      fun later member => least later (List.mem_cons_of_mem line member)
    have below := ih least' (before ++ [line])
    rcases Line.kind_at (least line List.mem_cons_self) with deeper | decorates | heads
    · rw [endsWithHead_concat_deeper deeper] at below
      rw [statementsAt_deeper deeper, placesBehind, List.filter_cons,
        Place.isLeftOut_deeper deeper]
      cases follows : endsWithHead base before <;> simp_all
    · rw [endsWithHead_concat_decorator decorates] at below
      rw [statementsAt_decorator decorates, parts_pending least', placesBehind,
        List.filter_cons, Place.isLeftOut_decorator decorates]
      cases taken : rest.any (·.isHeadAt base) <;>
        simp_all [Line.not_head_of_decorator decorates]
    · rw [endsWithHead_concat_head heads] at below
      rw [statementsAt_head heads, placesBehind, List.filter_cons, Place.isLeftOut_head heads]
      simp_all [Line.not_decorator_of_head heads, Statement.parts]

/-- `found` are the statements of lines with the least indentation `base`. -/
structure Grouping (base : Nat) (lines : List Line) (found : List Statement) : Prop where
  /-- The heads are the lines at the base that do not decorate. -/
  heads : found.map Statement.head = lines.filter (·.isHeadAt base)
  /-- Each head has its statement, made of the lines around it. -/
  each : found = ((places lines).filter fun place => place.line.isHeadAt base).map
    (Place.statement base)
  /-- The lines of all statements are the lines that are not left out. -/
  kept : found.flatMap Statement.parts =
    ((places lines).filter fun place => !place.isLeftOut base).map Place.line
  /-- No line is there twice, and all of them are in order. -/
  once : (found.flatMap Statement.parts).Sublist lines

/-- The statements of lines are a grouping of them. -/
theorem statements_grouped (least : baseIndent? lines = some base) :
    Grouping base lines (statements lines) := by
  have low : ∀ line ∈ lines, base ≤ line.indent := fun line member =>
    (List.min?_eq_some_iff.mp least).2 line.indent (List.mem_map_of_mem member)
  have each := statementsAt_eq low []
  have kept := parts_eq_kept low []
  have start : statements lines = statementsAt base [] lines := by rw [statements, least]
  simp only [pending, endsWithHead, List.rtakeWhile_nil, List.filter_nil, List.getLast?_nil,
    Option.any_none, Bool.false_eq_true, if_false, List.nil_append] at each kept
  rw [← start, ← places] at each kept
  refine ⟨?_, each, kept, ?_⟩
  · have heads : ((places lines).filter fun place => place.line.isHeadAt base).map Place.line =
        lines.filter (·.isHeadAt base) := by
      have whole := placesBehind_line [] lines
      conv_rhs => rw [← whole, List.filter_map]
      rfl
    rw [each, List.map_map, ← heads]
    rfl
  · have part := List.filter_sublist (l := places lines) (p := fun place => !place.isLeftOut base)
    have lines' := part.map Place.line
    rwa [places, placesBehind_line, ← places, ← kept] at lines'

/-- A class with a decorator, between lines that no statement takes up. -/
def decoratedClass : List Line :=
  [⟨1, 8, "x".toList⟩, ⟨2, 4, "@final".toList⟩, ⟨3, 6, "y".toList⟩, ⟨4, 4, "class A:".toList⟩,
    ⟨5, 8, "z = 1".toList⟩, ⟨6, 6, "w = 2".toList⟩, ⟨7, 4, "@late".toList⟩, ⟨8, 8, "v".toList⟩]

theorem decorated_class_grouped :
    baseIndent? decoratedClass = some 4 ∧ Grouping 4 decoratedClass (statements decoratedClass) :=
  ⟨by decide, statements_grouped (by decide)⟩

/-- The lines around the class are left out, and its own are kept in order. -/
example : (statements decoratedClass).map (·.parts.map Line.number) = [[2, 4, 5, 6]] := by decide

end ApiScribe.Source
