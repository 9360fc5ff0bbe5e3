import FlowTally.Proofs.Aggregator.Fit
import FlowTally.Proofs.Aggregator.Kept
import FlowTally.Proofs.Aggregator.Order
import FlowTally.Proofs.Record.Cells

/-!
# The records of the groups

A group that fits its layout is written into a record without any refusal, column by
column: each key value, and each merged value that is present. A column is read back from
one cell, so it shows what the last of these wrote there. That is the value of the group
unless another column writes the same cell, which is possible for a pair and its members.
-/

namespace FlowTally

namespace Layout

/-- The fields of all columns, each with the value of a group, if there is one. -/
def slots (l : Layout) (t : Tally) : List (FieldId × Option Value) :=
  (l.key.zip t.keys).map (fun (c, v) => (c.field, some v)) ++
    (l.value.zip t.values).map fun (c, v) => (c.field, v)

/-- The fields that have a value, with it. -/
def present (slots : List (FieldId × Option Value)) : List (FieldId × Value) :=
  slots.filterMap fun s => s.2.map fun v => (s.1, v)

/-- The fields and values of a group are its slots that have a value. -/
theorem assignments_eq (l : Layout) (t : Tally) :
    Aggregator.assignments l t = present (l.slots t) := by
  rw [present, slots, List.filterMap_append, List.filterMap_map, List.filterMap_map]
  refine congrArg₂ (· ++ ·) ?_ rfl
  rw [← List.filterMap_eq_map]
  rfl

/-- A slot writes its value to a cell, if it has one and its field writes there. -/
theorem written_present_cons (cell : FieldId) (s : FieldId × Option Value)
    (rest : List (FieldId × Option Value)) :
    Cells.written cell (present (s :: rest)) =
      (if cell ∈ s.1.cells then s.2.toList else []) ++ Cells.written cell (present rest) := by
  obtain ⟨f, own⟩ := s
  cases own with
  | none => simp [present]
  | some v =>
    by_cases hcell : cell ∈ f.cells
    · simp [present, Cells.written_cons, hcell]
    · simp [present, Cells.written_cons, hcell]

/-- Slots whose fields do not write to a cell leave it alone. -/
theorem written_present_eq_nil {cell : FieldId} {slots : List (FieldId × Option Value)}
    (h : ∀ f ∈ slots.map (·.1), cell ∉ f.cells) : Cells.written cell (present slots) = [] := by
  induction slots with
  | nil => rfl
  | cons s rest ih =>
    rw [written_present_cons, if_neg (h s.1 List.mem_cons_self), List.nil_append]
    exact ih fun f hf => h f (List.mem_cons_of_mem s.1 hf)

/-- A cell that one field alone writes to gets the value of its slot. -/
theorem written_present_of_alone {cell field : FieldId} {own : Option Value}
    {slots : List (FieldId × Option Value)} (hnodup : (slots.map (·.1)).Nodup)
    (hmem : (field, own) ∈ slots) (hcell : cell ∈ field.cells)
    (halone : ∀ f ∈ slots.map (·.1), f ≠ field → cell ∉ f.cells) :
    Cells.written cell (present slots) = own.toList := by
  induction slots with
  | nil => exact absurd hmem List.not_mem_nil
  | cons s rest ih =>
    obtain ⟨hnew, hrest⟩ := List.nodup_cons.mp hnodup
    have hothers : ∀ f ∈ rest.map (·.1), f ≠ field → cell ∉ f.cells :=
      fun f hf => halone f (List.mem_cons_of_mem s.1 hf)
    rw [written_present_cons]
    rcases List.mem_cons.mp hmem with rfl | hmem
    · have hnil : Cells.written cell (present rest) = [] := by
        refine written_present_eq_nil fun f hf => hothers f hf ?_
        rintro rfl
        exact hnew hf
      rw [if_pos hcell, hnil, List.append_nil]
    · have hne : s.1 ≠ field := by
        rintro rfl
        exact hnew (List.mem_map.mpr ⟨_, hmem, rfl⟩)
      rw [if_neg (halone s.1 List.mem_cons_self hne), List.nil_append]
      exact ih hrest hmem hothers

/-- A field with a column is in the catalog. -/
theorem Valid.type_isSome {l : Layout} (hl : l.Valid) {field : FieldId} (h : field ∈ l.fields) :
    field.type?.isSome = true := by
  obtain ⟨c, hc, rfl⟩ := List.mem_map.mp h
  rw [(hl.fromCatalog c hc).type_eq]
  rfl

end Layout

namespace Tally.Fits

variable {l : Layout} {t : Tally}

/-- The slots of a group that fits have the fields of the columns. -/
theorem map_fst_slots (h : t.Fits l) : (l.slots t).map (·.1) = l.fields := by
  have hzip : ∀ {α β γ : Type} (f : α → γ) (xs : List α) (ys : List β), xs.length = ys.length →
      (xs.zip ys).map (fun p => f p.1) = xs.map f := by
    intro α β γ f xs ys hlength
    have hfst : ((xs.zip ys).map Prod.fst).map f = xs.map f := by
      rw [List.map_fst_zip hlength.le]
    rwa [List.map_map] at hfst
  rw [Layout.slots, List.map_append, List.map_map, List.map_map, Layout.fields_eq]
  exact congrArg₂ (· ++ ·) (hzip Column.field _ _ h.keys.length_eq)
    (hzip Column.field _ _ h.values.length_eq)

/-- A value in a slot of a group that fits has the type of its field. -/
theorem type_of_mem_slots (hl : l.Valid) (h : t.Fits l) {field : FieldId} {v : Value}
    (hmem : (field, some v) ∈ l.slots t) : field.type? = some v.type := by
  rcases List.mem_append.mp hmem with hkey | hvalue
  · obtain ⟨⟨c, w⟩, hzip, heq⟩ := List.mem_map.mp hkey
    obtain ⟨rfl, hw⟩ := Prod.mk.inj heq
    obtain rfl := Option.some.inj hw
    have hcolumn := hl.fromCatalog c (List.mem_append_left _ (List.of_mem_zip hzip).1)
    rw [hcolumn.type_eq, ((List.forall₂_iff_zip.mp h.keys).2 hzip).type_eq]
  · obtain ⟨⟨c, w⟩, hzip, heq⟩ := List.mem_map.mp hvalue
    obtain ⟨rfl, rfl⟩ := Prod.mk.inj heq
    have hcolumn := hl.fromCatalog c (List.mem_append_right _ (List.of_mem_zip hzip).1)
    rw [hcolumn.type_eq, (List.forall₂_iff_zip.mp h.values).2 hzip v rfl]

/-- What a group that fits assigns has the types of its fields. -/
theorem type_of_mem_assignments (hl : l.Valid) (h : t.Fits l) {x : FieldId × Value}
    (hx : x ∈ Aggregator.assignments l t) : x.1.type? = some x.2.type := by
  rw [Layout.assignments_eq] at hx
  obtain ⟨⟨field, own⟩, hmem, hsome⟩ := List.mem_filterMap.mp hx
  obtain ⟨v, rfl, rfl⟩ := Option.map_eq_some_iff.mp hsome
  exact h.type_of_mem_slots hl hmem

end Tally.Fits

/-- The record of a group under a layout. -/
def Tally.record (l : Layout) (t : Tally) : Record :=
  (Aggregator.fillRecord Record.empty (Aggregator.assignments l t)).1

/-- A cleared record with storage is the empty one. -/
theorem Record.clear_eq_empty {r : Record} (ha : r.allocated = true) : r.clear = Record.empty := by
  simp only [Record.clear, Record.empty, ha]

namespace Aggregator

/-- A record with storage takes assignments of the types of their fields, one after the
other. -/
theorem exists_fillRecord {r : Record} (ha : r.allocated = true) {xs : List (FieldId × Value)}
    (hxs : ∀ x ∈ xs, x.1.type? = some x.2.type) :
    ∃ s : Record, fillRecord r xs = (s, .ok ()) ∧ s.allocated = true ∧
      s.cells = r.cells.storeAll xs := by
  induction xs generalizing r with
  | nil => exact ⟨r, rfl, ha, rfl⟩
  | cons x rest ih =>
    obtain ⟨s, hset, hs, hcells⟩ := Record.exists_set ha (hxs x List.mem_cons_self)
    obtain ⟨s', hfill, hs', hcells'⟩ := ih hs fun y hy => hxs y (List.mem_cons_of_mem x hy)
    refine ⟨s', ?_, hs', ?_⟩
    · rw [← hfill, fillRecord]
      simp only [FlowRecord.set, hset]
    · rw [hcells', hcells]
      rfl

section

variable {a : Aggregator} {i : Nat} {key : String} {tally : Tally}

/-- A group in the order of the results fits the layout. -/
theorem Sound.fits_of_ordered (h : a.Sound)
    (hgroup : (a.table.ordered a.layout a.ordering)[i]? = some (key, tally)) :
    tally.Fits a.layout := by
  have hfound := h.placed.mem_ordered_iff.mp (List.mem_of_getElem? hgroup)
  obtain ⟨old, hold, rfl⟩ := Option.map_eq_some_iff.mp hfound
  exact (h.fits.tally key old hold).fill h.valid

/-- The record of a group that fits is the empty one with what the group assigns. -/
theorem record_spec (hl : a.layout.Valid) (hfits : tally.Fits a.layout) :
    fillRecord Record.empty (assignments a.layout tally) = (tally.record a.layout, .ok ()) ∧
      (tally.record a.layout).allocated = true ∧
      (tally.record a.layout).cells = Cells.storeAll (assignments a.layout tally) [] := by
  obtain ⟨s, hfill, hs, hcells⟩ := exists_fillRecord (r := Record.empty) rfl
    fun x hx => hfits.type_of_mem_assignments hl hx
  have hrecord : tally.record a.layout = s := by rw [Tally.record, hfill]
  rw [hrecord]
  exact ⟨hfill, hs, hcells⟩

/-- A field in the catalog shows in the record of a group what was written to its cell last, or
that nothing was. -/
theorem get_record_of_catalog (hl : a.layout.Valid) (hfits : tally.Fits a.layout)
    {field : FieldId} (hfield : field.type?.isSome = true) :
    (tally.record a.layout).get field = Record.shown field
      (Cells.written (Record.cellOf field) (assignments a.layout tally)).getLast? := by
  obtain ⟨-, hallocated, hcells⟩ := record_spec hl hfits
  rw [Record.get_eq hallocated hfield, hcells, Cells.lookup_storeAll, Assoc.lookup, Option.or_none]

/-- A column of the record of a group shows what the last value that was written to its cell put
there, and the value of the group where no other column writes that cell. -/
theorem get_record (hl : a.layout.Valid) (hfits : tally.Fits a.layout) {field : FieldId}
    {own : Option Value} (hmem : (field, own) ∈ a.layout.slots tally) :
    (tally.record a.layout).get field = Record.shown field
        (Cells.written (Record.cellOf field) (assignments a.layout tally)).getLast? ∧
      ((∀ f ∈ a.layout.fields, f ≠ field → Record.cellOf field ∉ f.cells) →
        (tally.record a.layout).get field = Record.shown field own) := by
  have hfields := hfits.map_fst_slots
  have hfield : field ∈ a.layout.fields := hfields ▸ List.mem_map.mpr ⟨_, hmem, rfl⟩
  have hread := get_record_of_catalog hl hfits (hl.type_isSome hfield)
  refine ⟨hread, fun halone => ?_⟩
  rw [hread, Layout.assignments_eq, Layout.written_present_of_alone (hfields ▸ hl.nodup)
    hmem (Record.cellOf_mem_cells field) (hfields ▸ halone)]
  cases own <;> rfl

/-- Filling a record with the group at a position gives the record of that group. -/
theorem Sound.materialize_eq (h : a.Sound) (hcoherent : a.Coherent)
    (hgroup : (a.table.ordered a.layout a.ordering)[i]? = some (key, tally)) {out : Record}
    (hout : out.allocated = true) :
    a.materialize ⟨i⟩ out = (a.sortedKeys.1, tally.record a.layout, .ok ()) := by
  have hempty : a.table.isEmpty = false := by
    have hlt := (List.getElem?_eq_some_iff.mp hgroup).1
    rw [TallyTable.length_ordered] at hlt
    rw [TallyTable.isEmpty_eq]
    exact decide_eq_false (by omega)
  obtain ⟨htable, hkeys⟩ := Prod.mk.inj hcoherent.sortedKeys_eq
  have hkey : a.sortedKeys.2[i]? = some key := by
    rw [hkeys, ← TallyTable.ordered, List.getElem?_map, hgroup]
    rfl
  have hfound : a.sortedKeys.1.table.find? key = some tally := by
    rw [htable, TallyTable.find?_mapTallies]
    exact h.placed.mem_ordered_iff.mp (List.mem_of_getElem? hgroup)
  obtain ⟨hfill, -⟩ := record_spec h.valid (h.fits_of_ordered hgroup)
  unfold materialize
  simp only [FlowRecord.isAllocated, FlowRecord.clear, hout, hempty, hkey, Option.bind_some, hfound,
    a.sortedKeys_keeps.1, Record.clear_eq_empty hout, hfill]
  rfl

/-- What the columns of a row show. In every state that records of this library lead to, the
group at a position is written into a record without a refusal, and a column then shows what
the last present value whose field writes its cell put there. So it shows the value of the
group, or that there is none, wherever no other column writes the cell of its field. -/
theorem RecordReachable.get_materialize (h : a.RecordReachable)
    (hgroup : (a.table.ordered a.layout a.ordering)[i]? = some (key, tally)) {out : Record}
    (hout : out.allocated = true) :
    ∃ r : Record, (a.materialize ⟨i⟩ out).2 = (r, .ok ()) ∧
      (a.layout.slots tally).map (·.1) = a.layout.fields ∧
      ∀ field own, (field, own) ∈ a.layout.slots tally →
        r.get field = Record.shown field
          (Cells.written (Record.cellOf field) (assignments a.layout tally)).getLast? ∧
        ((∀ f ∈ a.layout.fields, f ≠ field → Record.cellOf field ∉ f.cells) →
          r.get field = Record.shown field own) := by
  have hsound := h.sound
  have hfits := hsound.fits_of_ordered hgroup
  refine ⟨tally.record a.layout, ?_, hfits.map_fst_slots, fun field own hmem => ?_⟩
  · rw [hsound.materialize_eq h.reachable.coherent hgroup hout]
  · exact get_record hsound.valid hfits hmem

end

/-- The group of the network run is shown as it is: no other column writes the cells of the
addresses, the bytes or the start. -/
theorem get_materialize_networkRun :
    let a := (new 2 TallyTable.polynomialSpread).run networkRun
    ∃ r : Record, (a.materialize ⟨0⟩ Record.empty).2 = (r, .ok ()) ∧
      r.get .addr = .ok (.addr (.v4 0xc0a80100)) ∧ r.get .bytes = .ok (.u64 200) ∧
      r.get .first = .error (.notSet .first) := by
  intro a
  have hreachable : a.RecordReachable := by
    refine ⟨2, TallyTable.polynomialSpread, networkRun, ?_, rfl⟩
    simp [networkRun, Operation.OnRecords]
  have hgroup : (a.table.ordered a.layout a.ordering)[0]? = some ("a:192.168.1.0;",
      ⟨[.addr (.v4 0xc0a80100)], [some (.f64 .zero), some (.u64 200), some (.u64 0), none, none]⟩)
      := by decide +kernel
  have halone : ∀ field ∈ [FieldId.addr, .bytes, .first], ∀ f ∈ a.layout.fields, f ≠ field →
      Record.cellOf field ∉ f.cells := by decide +kernel
  have hempty : Record.empty.allocated = true := rfl
  obtain ⟨r, hr, -, hget⟩ := hreachable.get_materialize hgroup hempty
  refine ⟨r, hr, ?_, ?_, ?_⟩
  · exact (hget .addr (some _) (by decide +kernel)).2 (halone .addr (by decide))
  · exact (hget .bytes (some _) (by decide +kernel)).2 (halone .bytes (by decide))
  · exact (hget .first none (by decide +kernel)).2 (halone .first (by decide))

/-- A run that groups by a pair and by one of its members. -/
def memberRun : List Operation :=
  [.configure ⟨.dstPort, .key, .none, 0, 0⟩, .configure ⟨.port, .key, .none, 0, 0⟩,
   .write (fillRecord Record.empty [(.srcPort, .u16 80), (.dstPort, .u16 53)]).1]

/-- The second group of the member run has the destination port 53, and the pair is written
over it. -/
theorem get_materialize_memberRun :
    let a := (new 1 TallyTable.polynomialSpread).run memberRun
    a.RecordReachable ∧ ∃ key tally,
      (a.table.ordered a.layout a.ordering)[1]? = some (key, tally) ∧
      (FieldId.dstPort, some (.u16 53)) ∈ a.layout.slots tally ∧
      ∃ r : Record, (a.materialize ⟨1⟩ Record.empty).2 = (r, .ok ()) ∧
        r.get .dstPort = .ok (.u16 80) := by
  intro a
  have hreachable : a.RecordReachable := by
    refine ⟨1, TallyTable.polynomialSpread, memberRun, ?_, rfl⟩
    simp [memberRun, Operation.OnRecords]
  -- Sorting does not evaluate, but the groups already stand in order.
  have hsorted : (a.table.mapTallies (Derived.fill a.layout)).entries.Pairwise
      fun d e => a.layout.inOrder a.ordering d e = true := by decide +kernel
  have hgroup : (a.table.ordered a.layout a.ordering)[1]? =
      some ("w:53;w:80;", ⟨[.u16 53, .u16 80], []⟩) := by
    rw [← hreachable.sound.placed.eq_ordered (.refl _) hsorted]
    decide +kernel
  have hempty : Record.empty.allocated = true := rfl
  have hfilled := hreachable.sound.materialize_eq hreachable.reachable.coherent hgroup hempty
  refine ⟨hreachable, _, _, hgroup, by decide +kernel, _, congrArg Prod.snd hfilled, ?_⟩
  decide +kernel

end Aggregator

end FlowTally
