import FlowTally.Proofs.Aggregator.Transparent
import FlowTally.Proofs.Layout.Listed

/-!
# What a request comes to

A request is refused for what it says itself, never for what its field needs: the inputs of a field
are in the catalog, are asked for without an aggregation, and never lead back to the field. A
refused request is not noticed by any later operation. One that is accepted keeps the groups or
drops all of them, and asking for it again finds everything in place.
-/

namespace FlowTally

/-- No field needs itself. -/
theorem FieldId.Needs.irrefl (f : FieldId) : ¬f.Needs f := by
  have hdepth : ∀ {f g : FieldId}, f.Needs g → g.depth < f.depth := by
    intro f g h
    induction h with
    | single hg => exact depth_lt hg
    | tail _ hg ih => exact (depth_lt hg).trans ih
  exact fun h => Nat.lt_irrefl _ (hdepth h)

/-- A request is refused if its field is not in the catalog, or if the field is composite and an
aggregation is asked for. -/
theorem ColumnRequest.isAccepted_eq_false_iff (r : ColumnRequest) :
    r.isAccepted = false ↔ r.field.info? = none ∨
      ∃ e, r.field.info? = some e ∧ e.aggregatable = false ∧ r.kind ≠ .auto := by
  unfold isAccepted
  cases r.field.info? with
  | none => simp
  | some e => simp

namespace Layout

variable {l l' : Layout}

/-- A column that stands in a list is put in its own place. -/
theorem replaceOrAppend_of_mem {c : Column} {cs : List Column} (hnodup : (cs.map (·.field)).Nodup)
    (hc : c ∈ cs) : replaceOrAppend c cs = cs := by
  induction cs with
  | nil => exact absurd hc List.not_mem_nil
  | cons d rest ih =>
    obtain ⟨hnew, hrest⟩ := List.nodup_cons.mp hnodup
    rcases List.mem_cons.mp hc with rfl | hc
    · rw [replaceOrAppend, if_pos rfl]
    · have hne : d.field ≠ c.field := fun heq => hnew (List.mem_map.mpr ⟨c, hc, heq.symm⟩)
      rw [replaceOrAppend, if_neg hne, ih hrest hc]

/-- Taking a field out of columns that have none of it changes nothing. -/
theorem without_of_notMem {f : FieldId} {cs : List Column} (h : f ∉ cs.map (·.field)) :
    without f cs = cs := by
  refine List.filter_eq_self.mpr fun c hc => decide_eq_true ?_
  rintro rfl
  exact h (List.mem_map_of_mem hc)

/-- Putting a column that is there changes nothing if it orders the results as it asks. -/
theorem Proper.put_of_mem (h : l.Proper) {c : Column} (hc : c ∈ l.columns)
    (hsorted : c.sort ≠ .none → l.sortedBy = some (c.field, c.sort)) : l.put c = l := by
  have hnodup := h.nodup
  rw [fields_eq] at hnodup
  obtain ⟨hkey, hvalue, hdisjoint⟩ := List.nodup_append.mp hnodup
  have hsame : (if c.sort = .none then l.sortedBy else some (c.field, c.sort)) = l.sortedBy := by
    split
    · rfl
    · next hsort => exact (hsorted hsort).symm
  rw [Layout.put]
  by_cases hkind : c.kind = .key
  · have hmem : c ∈ l.key := h.mem_key_iff.mpr ⟨hc, hkind⟩
    have hother : c.field ∉ l.value.map (·.field) := fun hf =>
      hdisjoint _ (List.mem_map_of_mem hmem) _ hf rfl
    simp only [if_pos hkind, replaceOrAppend_of_mem hkey hmem, without_of_notMem hother, hsame]
  · have hmem : c ∈ l.value := h.mem_value_iff.mpr ⟨hc, hkind⟩
    have hother : c.field ∉ l.key.map (·.field) := fun hf =>
      hdisjoint _ hf _ (List.mem_map_of_mem hmem) rfl
    simp only [if_neg hkind, replaceOrAppend_of_mem hvalue hmem, without_of_notMem hother, hsame]

/-- A request that was accepted finds its column, its order and all that its field needs in
place. -/
theorem Proper.configure_of_configure (h : l.Proper) {r : ColumnRequest}
    (hl : l.configure r = some l') : l'.configure r = some l' := by
  have hproper := h.configure hl
  have hsome : (l'.configure r).isSome = true := by
    rw [isSome_configure, ← l.isSome_configure, hl]
    rfl
  obtain ⟨m, hm⟩ := Option.isSome_iff_exists.mp hsome
  obtain ⟨e, he, rfl⟩ := configure_eq_some hm
  have hanswers := answers_columnFor he
  have hput : l'.put (columnFor e r) = l' := by
    refine hproper.put_of_mem ((h.mem_columns_configure hl).mpr (.inl hanswers)) fun hsort => ?_
    rw [hanswers.sort_eq] at hsort
    rw [sortedBy_configure hl, if_neg hsort, hanswers.field_eq, hanswers.sort_eq]
  have hneeded : ∀ g ∈ r.field.requirements, g ∈ l'.fields := fun g hg =>
    (h.mem_fields_configure hl g).mpr (.inl hg)
  rw [hm, hput, requireAll_of_subset hneeded]

end Layout

namespace Aggregator

variable {a : Aggregator} {r : ColumnRequest}

/-- In a reachable state the layout was asked for. -/
theorem Reachable.asked (h : a.Reachable) : ∃ asked, a.layout.Asked asked := by
  obtain ⟨n, spread, ops, rfl⟩ := h
  exact ⟨_, asked_run (a := new n spread) .empty ops⟩

/-- A request that is refused is only a change. -/
theorem configure_of_refused (hr : r.isAccepted = false) :
    a.configure r = (a.touch, .error (.unknownField r.field)) := by
  have hnone : a.layout.configure r = none := by
    rw [← Option.isNone_iff_eq_none, ← Option.isSome_eq_false_iff, Layout.isSome_configure, hr]
  rw [configure, hnone]

/-- A request that is accepted puts a new layout in place and drops the groups if its shape is
new. -/
theorem configure_of_accepted (hr : r.isAccepted = true) :
    ∃ l, a.layout.configure r = some l ∧ a.configure r = ({ a.touch with
      layout := l
      table := if l.shape = a.layout.shape then a.table else a.table.clear }, .ok ()) := by
  have hsome : (a.layout.configure r).isSome = true := by rw [Layout.isSome_configure, hr]
  obtain ⟨l, hl⟩ := Option.isSome_iff_exists.mp hsome
  exact ⟨l, hl, by rw [configure, hl]⟩

/-- A request succeeds if it is accepted. -/
theorem configure_ok_iff : (a.configure r).2 = .ok () ↔ r.isAccepted = true := by
  cases hr : r.isAccepted with
  | false => simp [configure_of_refused hr]
  | true =>
    obtain ⟨l, -, heq⟩ := a.configure_of_accepted hr
    simp [heq]

/-- A request fails if it is refused, and the error names its field. -/
theorem configure_error_iff {error : AggregateError} : (a.configure r).2 = .error error ↔
    r.isAccepted = false ∧ error = .unknownField r.field := by
  cases hr : r.isAccepted with
  | false => simp [configure_of_refused hr, eq_comm]
  | true =>
    obtain ⟨l, -, heq⟩ := a.configure_of_accepted hr
    simp [heq]

/-- A request that is accepted leaves the groups alone or drops all of them. -/
theorem groups_of_accepted (hr : r.isAccepted = true) :
    ((a.configure r).1.layout.shape = a.layout.shape → (a.configure r).1.table = a.table) ∧
      ((a.configure r).1.layout.shape ≠ a.layout.shape → (a.configure r).1.groupCount = 0) := by
  obtain ⟨l, -, heq⟩ := a.configure_of_accepted hr
  rw [heq]
  refine ⟨fun hshape => if_pos hshape, fun hshape => ?_⟩
  have hnone : a.table.clear.entries = [] := List.flatten_eq_nil_iff.mpr TallyTable.shards_clear
  rw [groupCount]
  dsimp only at hshape ⊢
  rw [if_neg hshape, TallyTable.size, hnone, List.length_nil]

/-- An accepted request that is made again finds its layout in place and leaves the groups. -/
theorem configure_again (hl : a.layout.Proper) (hr : r.isAccepted = true) :
    ((a.configure r).1.configure r).1.layout = (a.configure r).1.layout ∧
      ((a.configure r).1.configure r).1.table = (a.configure r).1.table := by
  obtain ⟨l, hl', heq⟩ := a.configure_of_accepted hr
  obtain ⟨m, hm, hagain⟩ := (a.configure r).1.configure_of_accepted hr
  have hlayout : (a.configure r).1.layout = l := by rw [heq]
  rw [hlayout, hl.configure_of_configure hl'] at hm
  obtain rfl := Option.some.inj hm
  rw [hagain, hlayout]
  exact ⟨rfl, if_pos rfl⟩

/-- A refused request is no change that any operation can tell. -/
theorem SameChanges.configure_of_refused (h : a.Reachable) (hr : r.isAccepted = false) :
    SameChanges (a.configure r).1 a := by
  have hreachable : (a.configure r).1.Reachable := h.step (.configure r)
  rw [Aggregator.configure_of_refused hr] at hreachable ⊢
  exact ⟨rfl, rfl, rfl, rfl, rfl, hreachable, h⟩

/-- Aggregations that went through the same changes show the same, the rebuilds apart. -/
theorem SameChanges.status_eq {b : Aggregator} (h : SameChanges a b) :
    a.status.ofChanges = b.status.ofChanges := by
  simp only [Status.ofChanges, status, groupCount, h.layout_eq, h.pairOnce_eq, h.ordering_eq,
    h.table_alike.size_eq, h.ofWrites_eq]

/-- The inputs of a field that has got its column are registered one after the other without a
failure, and that gives the new layout with its answers. -/
theorem Reachable.registers_inputs (h : a.Reachable) {e : CatalogEntry}
    (he : r.field.info? = some e) (hr : r.isAccepted = true) :
    r.field.inputs.foldlM KeptLayout.registerMissing (a.layout.kept.put (Layout.columnFor e r)) =
      .ok (a.configure r).1.layout.kept := by
  obtain ⟨asked, hasked⟩ := h.asked
  obtain ⟨l, hl, heq⟩ := a.configure_of_accepted hr
  have hregister := (hasked.ready r.field.depth).register_kept (r := r)
  have haccepted : ¬(!e.aggregatable ∧ r.kind ≠ .auto) := by
    rintro ⟨hentry, hkind⟩
    have hrefused := r.isAccepted_eq_false_iff.mpr (.inr ⟨e, he, by simpa using hentry, hkind⟩)
    rw [hr] at hrefused
    cases hrefused
  rw [KeptLayout.register_eq, he, hl] at hregister
  simp only [if_neg haccepted] at hregister
  rw [hregister, heq]

/-- What a request comes to in any reachable state. It is refused exactly if its field is not in the
catalog or is composite and an aggregation is asked for, and the field is what the error names;
registering the fields that are needed never fails, and none needs itself. A refused request leaves
the layout with its answers, the settings, the counters and the groups as they were, and whatever
is done later is answered, and leads to what is shown, as if it had not been made, but for the
count of the rebuilds. An accepted one leaves the groups alone if the shape of the layout is the
same and drops all of them otherwise, and making it again is accepted and changes neither the layout
nor the groups. -/
theorem Reachable.configure_outcome (h : a.Reachable) (r : ColumnRequest) :
    ((a.configure r).2 = .error (.unknownField r.field) ↔ r.field.info? = none ∨
      ∃ e, r.field.info? = some e ∧ e.aggregatable = false ∧ r.kind ≠ .auto) ∧
    (∀ error, (a.configure r).2 = .error error → error = .unknownField r.field) ∧
    (∀ e, r.field.info? = some e → (e.aggregatable = true ∨ r.kind = .auto) →
      r.field.inputs.foldlM KeptLayout.registerMissing
        (a.layout.kept.put (Layout.columnFor e r)) = .ok (a.configure r).1.layout.kept) ∧
    (∀ f : FieldId, ¬f.Needs f) ∧
    (∀ error, (a.configure r).2 = .error error →
      (a.configure r).1.layout.kept = a.layout.kept ∧ (a.configure r).1.table = a.table ∧
        (a.configure r).1.status = a.status ∧
        ∀ rest, (a.configure r).1.answers rest = a.answers rest ∧
          ((a.configure r).1.run rest).status.ofChanges = (a.run rest).status.ofChanges) ∧
    ((a.configure r).2 = .ok () →
      ((a.configure r).1.layout.shape = a.layout.shape → (a.configure r).1.table = a.table) ∧
        ((a.configure r).1.layout.shape ≠ a.layout.shape → (a.configure r).1.groupCount = 0) ∧
        ((a.configure r).1.configure r).2 = .ok () ∧
        ((a.configure r).1.configure r).1.layout = (a.configure r).1.layout ∧
        ((a.configure r).1.configure r).1.table = (a.configure r).1.table) := by
  refine ⟨?_, fun error herror => (configure_error_iff.mp herror).2, fun e he haccepted => ?_,
    FieldId.Needs.irrefl, fun error herror => ?_, fun hok => ?_⟩
  · rw [configure_error_iff, and_iff_left rfl, r.isAccepted_eq_false_iff]
  · refine h.registers_inputs he ?_
    rw [ColumnRequest.isAccepted, he]
    simpa using haccepted
  · have hr := (configure_error_iff.mp herror).1
    have hsame := SameChanges.configure_of_refused h hr
    refine ⟨by rw [hsame.layout_eq], ?_, ?_, fun rest => ⟨?_, ?_⟩⟩
    · rw [configure_of_refused hr]
      rfl
    · rw [configure_of_refused hr]
      rfl
    · exact SameChanges.indistinct.answers_eq hsame rest
    · exact (SameChanges.indistinct.run hsame rest).status_eq
  · have hr := configure_ok_iff.mp hok
    obtain ⟨hkept, hdropped⟩ := groups_of_accepted (a := a) hr
    exact ⟨hkept, hdropped, configure_ok_iff.mpr hr, configure_again h.coherent.valid.toProper hr⟩

/-- A port, and the rate of its flows in descending order. -/
def portRun : List Operation :=
  [.configure ⟨.srcPort, .key, .none, 0, 0⟩, .write (portRecord 53 100)]

/-- A byte string is no column of its own and changes nothing; the rate brings its inputs along and
drops the group, and asking for it again changes nothing more. -/
theorem configure_outcome_portRun :
    let a := (new 2 TallyTable.polynomialSpread).run portRun
    let refused : ColumnRequest := ⟨⟨0x3b⟩, .sum, .none, 0, 0⟩
    let rate : ColumnRequest := ⟨.bitRate, .auto, .desc, 0, 0⟩
    a.groupCount = 1 ∧ (a.configure refused).2 = .error (.unknownField ⟨0x3b⟩) ∧
      (a.configure refused).1.status = a.status ∧
      (a.configure rate).2 = .ok () ∧ (a.configure rate).1.groupCount = 0 ∧
      (a.configure rate).1.layout.fields =
        [.srcPort, .bitRate, .bytes, .duration, .first, .last] ∧
      ((a.configure rate).1.configure rate).1.layout = (a.configure rate).1.layout := by
  intro a refused rate
  have ha : a.Reachable := ⟨2, TallyTable.polynomialSpread, portRun, rfl⟩
  obtain ⟨-, -, -, -, hrefused, -⟩ := ha.configure_outcome refused
  obtain ⟨-, -, -, -, -, hrate⟩ := ha.configure_outcome rate
  have hno : (a.configure refused).2 = .error (.unknownField ⟨0x3b⟩) := by decide +kernel
  have hok : (a.configure rate).2 = .ok () := by decide +kernel
  obtain ⟨-, hdropped, -, hagain, -⟩ := hrate hok
  exact ⟨by decide +kernel, hno, (hrefused _ hno).2.2.1, hok, hdropped (by decide +kernel),
    by decide +kernel, hagain⟩

end Aggregator

end FlowTally
