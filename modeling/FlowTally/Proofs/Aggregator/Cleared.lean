import FlowTally.Proofs.Aggregator.Answer
import FlowTally.Proofs.Aggregator.Kept

/-!
# Clearing leaves nothing behind

A cleared aggregation differs from a new one in its generation, which goes on from where it was.
A generation is only ever compared with the one that the kept order was made in, so raising both
by one number is seen by no operation and kept by all of them. No order from before the clearing
can come back: clearing drops it, and one that is kept later is raised by the same number.
-/

namespace FlowTally

namespace Aggregator

/-- The aggregation with its generation, and that of the order it keeps, raised by a number. -/
def aged (n : Nat) (a : Aggregator) : Aggregator := { a with
  generation := a.generation + n
  kept := a.kept.map fun k => { k with generation := k.generation + n } }

/-- A change makes aggregations of any age one generation older. -/
theorem touch_aged (n : Nat) (a : Aggregator) : (a.aged n).touch = a.touch.aged n := by
  simp only [touch, aged, Nat.add_right_comm]

/-- Asking for the order finds an order of the same age, or makes one. -/
theorem sortedKeys_aged (n : Nat) (a : Aggregator) :
    (a.aged n).sortedKeys = (a.sortedKeys.1.aged n, a.sortedKeys.2) := by
  have hmade : (a.aged n).rebuilt = (a.rebuilt.1.aged n, a.rebuilt.2) := rfl
  rcases a.sortedKeys_cases with ⟨kept, hkept, hcurrent, heq⟩ | ⟨hstale, heq⟩
  · have hkeptAged : (a.aged n).kept = some ⟨kept.generation + n, kept.keys⟩ := by
      simp only [aged, hkept, Option.map_some]
    have hcurrentAged : kept.generation + n = (a.aged n).generation := by
      simp only [aged, hcurrent]
    rw [heq, sortedKeys, hkeptAged]
    simp only [if_pos hcurrentAged]
  · rw [heq, ← hmade]
    rcases (a.aged n).sortedKeys_cases with ⟨kept, hkept, hcurrent, -⟩ | ⟨-, heq'⟩
    · obtain ⟨old, hold, rfl⟩ := Option.map_eq_some_iff.mp hkept
      have hne := hstale old hold
      simp only [aged] at hcurrent
      omega
    · exact heq'

/-- A request is answered at any age as at any other, and is one change. -/
theorem configure_aged (n : Nat) (a : Aggregator) (r : ColumnRequest) :
    ((a.aged n).configure r).1 = (a.configure r).1.aged n := by
  have hlayout : (a.aged n).layout = a.layout := rfl
  unfold configure
  rw [hlayout, touch_aged]
  cases a.layout.configure r with
  | none => rfl
  | some l => rfl

/-- A contribution is added at any age as at any other. -/
theorem addContribution_aged (n : Nat) (a : Aggregator) (c : Contribution) :
    (a.aged n).addContribution c = (a.addContribution c).aged n := by
  have hadd : ∀ (b : Aggregator) keys values,
      (b.aged n).add keys values = (b.add keys values).aged n := fun _ _ _ => rfl
  have honce : (a.aged n).pairOnce = a.pairOnce := rfl
  unfold addContribution
  cases c.destination with
  | none => exact hadd a c.keys c.values
  | some destination =>
    dsimp only
    rw [honce, hadd]
    split
    · rfl
    · exact hadd _ destination c.values

/-- A record is written at any age as at any other, and is one change unless it is refused. -/
theorem write_aged (n : Nat) (a : Aggregator) {R : Type} [FlowRecord R] (r : R) :
    ((a.aged n).write r).1 = (a.write r).1.aged n := by
  have hcontribution : (a.aged n).contribution r = a.contribution r := rfl
  unfold write
  rw [hcontribution]
  cases a.contribution r with
  | error e => rfl
  | ok c =>
    dsimp only
    rw [addContribution_aged, touch_aged]
    rfl

/-- Two aggregations differ by a number in their generations only. -/
def SameButAge (n : Nat) (a b : Aggregator) : Prop := a = b.aged n

namespace SameButAge

variable {n : Nat}

/-- Reading cannot tell the age. -/
theorem readsAlike : ReadsAlike (SameButAge n) where
  layout_eq := by
    rintro _ b rfl
    rfl
  size_eq := by
    rintro _ b rfl
    rfl
  filled_eq {R} _ {a b} c out h := by
    obtain rfl := h
    have hsorted := b.sortedKeys_aged n
    refine materialize_congr (a := b.aged n) (b := b) rfl rfl ?_ ?_ c out
    · rw [hsorted]
      rfl
    · rw [hsorted]
  materialize {R} _ {a b} c out h := by
    obtain rfl := h
    have hempty : (b.aged n).table.isEmpty = b.table.isEmpty := rfl
    rw [SameButAge, materialize_fst, materialize_fst, sortedKeys_aged, hempty]
    split <;> rfl

/-- No operation tells the age. -/
theorem indistinct : Indistinct (SameButAge n) := by
  apply Indistinct.of_readsAlike readsAlike
  · rintro _ b r rfl
    exact b.configure_aged n r
  · rintro _ b on rfl
    rw [SameButAge, setPairOnce, setPairOnce, touch_aged]
    rfl
  · rintro _ b ordering rfl
    rw [SameButAge, setOrdering, setOrdering, touch_aged]
    rfl
  · rintro R _ _ b r rfl
    exact b.write_aged n r
  · rintro _ b rfl
    simp only [SameButAge, clear, aged, Nat.add_right_comm, Option.map_none]

end SameButAge

/-- A cleared aggregation is a new one with as many shards, but for its age. -/
theorem clear_run (shards : Nat) (spread : String → Nat) (ops : List Operation) :
    let a := (new shards spread).run ops
    SameButAge (a.generation + 1) a.clear (new shards spread) := by
  intro a
  have htable : a.table.clear = TallyTable.new shards spread := by
    rw [clear_table_run]
    exact TallyTable.clear_new shards spread
  simp only [SameButAge, clear, aged, new, htable, Option.map_none, Nat.zero_add]

/-- Clearing leaves nothing behind. Whatever was done before, and whatever is done next, a cleared
aggregation gives the answers of a new one with as many shards, shows the same of itself and
holds the same groups; a position that was handed out before the clearing is as good as any. -/
theorem answers_of_clear (shards : Nat) (spread : String → Nat) (ops more : List Operation) :
    let a := ((new shards spread).run ops).clear
    let b := new shards spread
    a.answers more = b.answers more ∧ (a.run more).status = (b.run more).status ∧
      (a.run more).table = (b.run more).table := by
  intro a b
  have hstart := clear_run shards spread ops
  have hend := SameButAge.indistinct.run hstart more
  refine ⟨SameButAge.indistinct.answers_eq hstart more, ?_, ?_⟩
  · rw [hend]
    rfl
  · rw [hend]
    rfl

end Aggregator

end FlowTally
