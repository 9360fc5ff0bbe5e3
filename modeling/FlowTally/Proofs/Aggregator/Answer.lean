import FlowTally.Proofs.Aggregator.Counting
import FlowTally.Proofs.Aggregator.Operation

/-!
# What can be seen of an aggregation

Every operation gives an answer, and between two operations the columns, the settings, the
number of groups and the counters can be asked for. Aggregations that no operation tells
apart give the same answers in every run.
-/

namespace FlowTally

/-- What an operation answers. -/
inductive Answer : Type 1 where
  /-- Nothing: the operation cannot fail. -/
  | nothing
  /-- Whether a request or a record was accepted. -/
  | done (result : Except AggregateError Unit)
  /-- A position. -/
  | position (result : Except AggregateError Cursor)
  /-- The record as it was filled, and whether all of it was. -/
  | filled {R : Type} (out : R) (result : Except AggregateError Unit)
  /-- The written results. -/
  | reported (result : Except ReportError Report)

/-- What an aggregation shows of itself, the number of shards apart. -/
structure Status where
  /-- The columns. -/
  layout : Layout
  /-- Whether a record whose two sides have one key counts once. -/
  pairOnce : Bool
  /-- How addresses are ordered. -/
  ordering : AddressOrdering
  /-- The number of groups. -/
  groupCount : Nat
  /-- What happened so far. -/
  counters : Counters
deriving DecidableEq

/-- What is shown without the count of the rebuilds. -/
def Status.ofChanges (s : Status) : Status := { s with counters := s.counters.ofWrites }

namespace Aggregator

/-- What an aggregation shows of itself. -/
def status (a : Aggregator) : Status :=
  ⟨a.layout, a.pairOnce, a.ordering, a.groupCount, a.counters⟩

/-- The answer to an operation. -/
def answer (a : Aggregator) : Operation → Answer
  | .configure r => .done (a.configure r).2
  | @Operation.write _ _ r => .done (a.write r).2
  | .firstPosition => .position a.firstPosition
  | .nextPosition c => .position (a.nextPosition c)
  | @Operation.materialize _ _ c out =>
    .filled (a.materialize c out).2.1 (a.materialize c out).2.2
  | .report format limit => .reported (a.report format limit).2
  | .setPairOnce _ | .setOrdering _ | .clear => .nothing

/-- The answers to operations one after the other. -/
def answers (a : Aggregator) : List Operation → List Answer
  | [] => []
  | op :: rest => a.answer op :: (a.step op).answers rest

/-- What a write answers follows from the layout. -/
theorem write_answer_congr {R : Type} [FlowRecord R] {a b : Aggregator}
    (h : a.layout = b.layout) (r : R) : (a.write r).2 = (b.write r).2 := by
  have hsame : a.contribution r = b.contribution r := by
    unfold contribution
    rw [h]
  unfold write
  rw [hsame]
  cases b.contribution r <;> rfl

/-- What a request answers follows from the layout. -/
theorem configure_answer_congr {a b : Aggregator} (h : a.layout = b.layout)
    (r : ColumnRequest) : (a.configure r).2 = (b.configure r).2 := by
  unfold configure
  rw [h]
  cases b.layout.configure r <;> rfl

/-- Reading cannot tell related aggregations apart, and leaves them related. -/
structure ReadsAlike (Rel : Aggregator → Aggregator → Prop) : Prop where
  /-- They have the same columns. -/
  layout_eq : ∀ {a b}, Rel a b → a.layout = b.layout
  /-- They have as many groups. -/
  size_eq : ∀ {a b}, Rel a b → a.table.size = b.table.size
  /-- They fill records alike. -/
  filled_eq : ∀ {R : Type} [FlowRecord R] {a b} (c : Cursor) (out : R), Rel a b →
    (a.materialize c out).2 = (b.materialize c out).2
  /-- Filling a record leaves them related. -/
  materialize : ∀ {R : Type} [FlowRecord R] {a b} (c : Cursor) (out : R), Rel a b →
    Rel (a.materialize c out).1 (b.materialize c out).1

namespace ReadsAlike

variable {Rel : Aggregator → Aggregator → Prop} {a b : Aggregator}

/-- They have the same first position. -/
theorem firstPosition_eq (h : ReadsAlike Rel) (hab : Rel a b) :
    a.firstPosition = b.firstPosition := by
  unfold firstPosition
  rw [TallyTable.isEmpty_eq, TallyTable.isEmpty_eq, h.size_eq hab]

/-- They have the same positions behind each other. -/
theorem nextPosition_eq (h : ReadsAlike Rel) (hab : Rel a b) (c : Cursor) :
    a.nextPosition c = b.nextPosition c := by
  unfold nextPosition
  rw [h.size_eq hab]

/-- Walking through the groups gives the same records. -/
theorem walkFrom (h : ReadsAlike Rel) (hab : Rel a b) (c : Cursor) (room : Nat) :
    (a.walkFrom c room).2 = (b.walkFrom c room).2 ∧
      Rel (a.walkFrom c room).1 (b.walkFrom c room).1 := by
  induction room generalizing a b c with
  | zero => exact ⟨rfl, hab⟩
  | succ room ih =>
    have hfilled := h.filled_eq c Record.empty hab
    have hrelated := h.materialize c Record.empty hab
    unfold Aggregator.walkFrom
    generalize a.materialize c Record.empty = x at hfilled hrelated ⊢
    generalize b.materialize c Record.empty = y at hfilled hrelated ⊢
    obtain ⟨a', out, result⟩ := x
    obtain ⟨b', out', result'⟩ := y
    obtain ⟨rfl, rfl⟩ := Prod.mk.inj hfilled
    dsimp only at hrelated ⊢
    cases result with
    | error e => exact ⟨rfl, hrelated⟩
    | ok _ =>
      dsimp only
      rw [h.nextPosition_eq hrelated c]
      cases b'.nextPosition c with
      | error e => exact ⟨rfl, hrelated⟩
      | ok next =>
        obtain ⟨hrest, hleft⟩ := ih hrelated next
        dsimp only
        generalize a'.walkFrom next room = x at hrest hleft ⊢
        generalize b'.walkFrom next room = y at hrest hleft ⊢
        obtain ⟨a'', answer⟩ := x
        obtain ⟨b'', answer'⟩ := y
        dsimp only at hrest hleft ⊢
        subst hrest
        cases answer with
        | error e => exact ⟨rfl, hleft⟩
        | ok outs => exact ⟨rfl, hleft⟩

/-- The written results are the same. -/
theorem report (h : ReadsAlike Rel) (hab : Rel a b) (format : OutputFormat) (limit : Nat) :
    (a.report format limit).2 = (b.report format limit).2 ∧
      Rel (a.report format limit).1 (b.report format limit).1 := by
  have hwalk : (a.walk limit).2 = (b.walk limit).2 ∧ Rel (a.walk limit).1 (b.walk limit).1 := by
    unfold walk groupCount
    rw [h.firstPosition_eq hab, h.size_eq hab]
    cases b.firstPosition with
    | error e => exact ⟨rfl, hab⟩
    | ok c => exact h.walkFrom hab c _
  unfold Aggregator.report
  rw [h.layout_eq hab]
  generalize a.walk limit = x at hwalk ⊢
  generalize b.walk limit = y at hwalk ⊢
  obtain ⟨a', answer⟩ := x
  obtain ⟨b', answer'⟩ := y
  obtain ⟨hsame, hrelated⟩ := hwalk
  dsimp only at hsame hrelated ⊢
  subst hsame
  cases answer with
  | error e => exact ⟨rfl, hrelated⟩
  | ok records => exact ⟨rfl, hrelated⟩

end ReadsAlike

/-- No operation tells related aggregations apart. -/
structure Indistinct (Rel : Aggregator → Aggregator → Prop) : Prop where
  /-- Every operation gives the same answer. -/
  answer_eq : ∀ {a b} (op : Operation), Rel a b → a.answer op = b.answer op
  /-- Every operation leaves them related. -/
  step : ∀ {a b} (op : Operation), Rel a b → Rel (a.step op) (b.step op)

namespace Indistinct

variable {Rel : Aggregator → Aggregator → Prop} {a b : Aggregator}

/-- A relation that reading cannot see is seen by no operation if the changes keep it. -/
theorem of_readsAlike (h : ReadsAlike Rel)
    (configure : ∀ {a b} (r : ColumnRequest), Rel a b → Rel (a.configure r).1 (b.configure r).1)
    (setPairOnce : ∀ {a b} (on : Bool), Rel a b → Rel (a.setPairOnce on) (b.setPairOnce on))
    (setOrdering : ∀ {a b} (ordering : AddressOrdering), Rel a b →
      Rel (a.setOrdering ordering) (b.setOrdering ordering))
    (write : ∀ {R : Type} [FlowRecord R] {a b} (r : R), Rel a b → Rel (a.write r).1 (b.write r).1)
    (clear : ∀ {a b}, Rel a b → Rel a.clear b.clear) : Indistinct Rel where
  answer_eq {a b} op hab := by
    cases op with
    | configure r => exact congrArg Answer.done (configure_answer_congr (h.layout_eq hab) r)
    | setPairOnce on => rfl
    | setOrdering ordering => rfl
    | write r => exact congrArg Answer.done (write_answer_congr (h.layout_eq hab) r)
    | firstPosition => exact congrArg Answer.position (h.firstPosition_eq hab)
    | nextPosition c => exact congrArg Answer.position (h.nextPosition_eq hab c)
    | materialize c out =>
      have hfilled := h.filled_eq c out hab
      simp only [answer, hfilled]
    | report format limit => exact congrArg Answer.reported (h.report hab format limit).1
    | clear => rfl
  step {a b} op hab := by
    cases op with
    | configure r => exact configure r hab
    | setPairOnce on => exact setPairOnce on hab
    | setOrdering ordering => exact setOrdering ordering hab
    | write r => exact write r hab
    | firstPosition => exact hab
    | nextPosition c => exact hab
    | materialize c out => exact h.materialize c out hab
    | report format limit => exact (h.report hab format limit).2
    | clear => exact clear hab

/-- Related aggregations stay related in every run. -/
theorem run (h : Indistinct Rel) (hab : Rel a b) (ops : List Operation) :
    Rel (a.run ops) (b.run ops) := by
  induction ops generalizing a b with
  | nil => exact hab
  | cons op rest ih => exact ih (h.step op hab)

/-- Related aggregations give the same answers in every run. -/
theorem answers_eq (h : Indistinct Rel) (hab : Rel a b) (ops : List Operation) :
    a.answers ops = b.answers ops := by
  induction ops generalizing a b with
  | nil => rfl
  | cons op rest ih => rw [answers, answers, h.answer_eq op hab, ih (h.step op hab)]

end Indistinct

end Aggregator

end FlowTally
