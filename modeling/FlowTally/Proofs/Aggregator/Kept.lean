import FlowTally.Proofs.Aggregator.Operation

/-!
# The kept order is the order

An order that is kept and has not been overtaken by a change is the one that would be
computed now, and the derived values are those that would be filled in. So asking for the
order always gives what computing it anew would give, and what a record is filled with
does not depend on what was asked before.
-/

namespace FlowTally

/-- Changing every group twice is changing it by both. -/
theorem TallyTable.mapTallies_mapTallies (t : TallyTable) (f g : Tally → Tally) :
    (t.mapTallies f).mapTallies g = t.mapTallies fun tally => g (f tally) := by
  simp [mapTallies, List.map_map, Function.comp_def]

/-- Rebuilding a table that was rebuilt changes nothing. -/
theorem TallyTable.rebuild_rebuild {l : Layout} (hl : l.Valid) (t : TallyTable)
    (ordering : AddressOrdering) :
    (t.rebuild l ordering).1.rebuild l ordering = t.rebuild l ordering := by
  have hfill : (t.mapTallies (Derived.fill l)).mapTallies (Derived.fill l) =
      t.mapTallies (Derived.fill l) := by
    rw [mapTallies_mapTallies]
    simp only [Derived.fill_fill hl]
  simp only [rebuild, hfill]

namespace Aggregator

/-- The kept order can be relied on. -/
structure Coherent (a : Aggregator) : Prop where
  /-- The layout was configured. -/
  valid : a.layout.Valid
  /-- The order was not kept in the future. -/
  generation_le : ∀ kept, a.kept = some kept → kept.generation ≤ a.generation
  /-- An order of this generation is what rebuilding the table gives, and the table is
  rebuilt. -/
  rebuild_eq : ∀ kept, a.kept = some kept → kept.generation = a.generation →
    a.table.rebuild a.layout a.ordering = (a.table, kept.keys)

/-- Where no order is kept, there is none to rely on. -/
theorem Coherent.of_kept_eq_none {a : Aggregator} (hvalid : a.layout.Valid)
    (hkept : a.kept = none) : a.Coherent where
  valid := hvalid
  generation_le kept h := by
    rw [hkept] at h
    cases h
  rebuild_eq kept h := by
    rw [hkept] at h
    cases h

/-- There is no order at the start. -/
theorem Coherent.new (n : Nat) (spread : String → Nat) : (new n spread).Coherent :=
  .of_kept_eq_none .empty rfl

section

variable {a a' : Aggregator}

/-- A change overtakes the kept order. -/
theorem Coherent.overtaken (h : a.Coherent) (hvalid : a'.layout.Valid) (hkept : a'.kept = a.kept)
    (hgeneration : a'.generation = a.generation + 1) : a'.Coherent := by
  have hlt : ∀ kept, a'.kept = some kept → kept.generation < a'.generation := by
    intro kept hsome
    have hle := h.generation_le kept (hkept ▸ hsome)
    omega
  refine ⟨hvalid, fun kept hsome => (hlt kept hsome).le, fun kept hsome hcurrent => ?_⟩
  have := hlt kept hsome
  omega

/-- Asking for the order gives what rebuilding the table gives. -/
theorem Coherent.sortedKeys_eq (h : a.Coherent) :
    (a.sortedKeys.1.table, a.sortedKeys.2) = a.table.rebuild a.layout a.ordering := by
  rcases a.sortedKeys_cases with ⟨kept, hkept, hcurrent, heq⟩ | ⟨-, heq⟩
  · rw [heq, h.rebuild_eq kept hkept hcurrent]
  · rw [heq]
    rfl

/-- Reading the results keeps the order right. -/
theorem Coherent.read (h : a.Coherent) (hread : a.ReadsTo a') : a'.Coherent := by
  rcases hread with rfl | rfl
  · exact h
  · rcases a.sortedKeys_cases with ⟨kept, -, -, heq⟩ | ⟨-, heq⟩
    · rw [heq]
      exact h
    · rw [heq]
      refine ⟨h.valid, fun kept hkept => ?_, fun kept hkept _ => ?_⟩
      · obtain rfl := Option.some.inj hkept
        exact le_rfl
      · obtain rfl := Option.some.inj hkept
        exact TallyTable.rebuild_rebuild h.valid a.table a.ordering

/-- A write that is refused changes nothing but the counters; any other is a change. -/
theorem write_cases {R : Type} [FlowRecord R] (a : Aggregator) (r : R) :
    (∃ counters, (a.write r).1 = { a with counters := counters }) ∨
      (a.write r).1.generation = a.generation + 1 := by
  unfold write
  cases a.contribution r with
  | error e => exact .inl ⟨_, rfl⟩
  | ok c =>
    refine .inr ?_
    simp only [touch]
    rw [addContribution_eq a c]

/-- Writing a record keeps the order right. -/
theorem Coherent.write (h : a.Coherent) {R : Type} [FlowRecord R] (r : R) :
    (a.write r).1.Coherent := by
  rcases a.write_cases r with ⟨counters, heq⟩ | hgeneration
  · rw [heq]
    exact ⟨h.valid, h.generation_le, h.rebuild_eq⟩
  · obtain ⟨hlayout, -, -, hkept⟩ := a.write_keeps r
    exact h.overtaken (hlayout ▸ h.valid) hkept hgeneration

/-- Writing records keeps the order right. -/
theorem Coherent.writeAll (h : a.Coherent) {R : Type} [FlowRecord R] (rs : List R) :
    (a.writeAll rs).Coherent := by
  induction rs generalizing a with
  | nil => exact h
  | cons r rest ih => exact ih (h.write r)

/-- Every operation keeps the order right. -/
theorem Coherent.step (h : a.Coherent) (op : Operation) : (a.step op).Coherent := by
  cases op with
  | configure r =>
    rcases a.configure_cases r with ⟨-, hsame⟩ | ⟨l, hsome, hput⟩
    · rw [Aggregator.step, hsame]
      exact h.overtaken h.valid rfl rfl
    · rw [Aggregator.step, hput]
      exact h.overtaken (h.valid.configure hsome) rfl rfl
  | setPairOnce on => exact h.overtaken h.valid rfl rfl
  | setOrdering ordering => exact h.overtaken h.valid rfl rfl
  | write r => exact h.write r
  | firstPosition => exact h
  | nextPosition c => exact h
  | materialize c out => exact h.read (readsTo_materialize a c out)
  | report format limit => exact h.read (readsTo_report a format limit)
  | clear => exact .of_kept_eq_none .empty rfl

/-- In every reachable state the order is right. -/
theorem Reachable.coherent (h : a.Reachable) : a.Coherent :=
  h.induction Coherent.new fun _ op ha => ha.step op

/-- What a record is filled with depends on the layout, the order, and the groups that are
found under its keys. -/
theorem materialize_congr_of_find {R : Type} [FlowRecord R] {b : Aggregator}
    (hlayout : a.layout = b.layout) (hempty : a.table.isEmpty = b.table.isEmpty)
    (hfind : ∀ key, a.sortedKeys.1.table.find? key = b.sortedKeys.1.table.find? key)
    (hkeys : a.sortedKeys.2 = b.sortedKeys.2) (c : Cursor) (out : R) :
    (a.materialize c out).2 = (b.materialize c out).2 := by
  have hread : a.sortedKeys.1.layout = b.sortedKeys.1.layout := by
    rw [a.sortedKeys_keeps.1, b.sortedKeys_keeps.1, hlayout]
  have hgroup : (a.sortedKeys.2[c.position]?).bind a.sortedKeys.1.table.find? =
      (b.sortedKeys.2[c.position]?).bind b.sortedKeys.1.table.find? := by
    rw [hkeys]
    exact congrArg _ (funext hfind)
  unfold materialize
  dsimp only
  rw [← hempty, ← hgroup, ← hread]
  split
  · rfl
  · split
    · rfl
    · split <;> rfl

/-- What a record is filled with depends on the layout, the groups and their order only. -/
theorem materialize_congr {R : Type} [FlowRecord R] {b : Aggregator}
    (hlayout : a.layout = b.layout) (hempty : a.table.isEmpty = b.table.isEmpty)
    (htable : a.sortedKeys.1.table = b.sortedKeys.1.table)
    (hkeys : a.sortedKeys.2 = b.sortedKeys.2) (c : Cursor) (out : R) :
    (a.materialize c out).2 = (b.materialize c out).2 :=
  materialize_congr_of_find hlayout hempty (fun _ => by rw [htable]) hkeys c out

/-- A record is filled as if no order had been kept. -/
theorem Coherent.materialize_eq (h : a.Coherent) {R : Type} [FlowRecord R] (c : Cursor) (out : R) :
    (a.materialize c out).2 = ({ a with kept := none }.materialize c out).2 := by
  let fresh : Aggregator := { a with kept := none }
  have hsame : (a.sortedKeys.1.table, a.sortedKeys.2) =
      (fresh.sortedKeys.1.table, fresh.sortedKeys.2) := h.sortedKeys_eq
  obtain ⟨htable, hkeys⟩ := Prod.mk.inj hsame
  exact materialize_congr (a := a) (b := fresh) rfl rfl htable hkeys c out

end

end Aggregator

end FlowTally
