import FlowTally.Proofs.Aggregator.Walk

/-!
# Positions of any age

A position is a number, and nothing tells when it was handed out. The next position is found from
the number of groups and a record is filled from the kept order; the order is complete and current
in every reachable state, so the two agree on which positions there are. A record that is filled
forgets what it held. It shows the values of the group, except where another column writes the same
cell behind them.
-/

namespace FlowTally

namespace Aggregator

variable {a : Aggregator}

/-- The next position is the one behind, as long as there is a group there. -/
theorem nextPosition_eq (a : Aggregator) (c : Cursor) :
    a.nextPosition c =
      if a.groupCount = 0 then .error .empty
      else if c.position + 1 < a.groupCount then .ok ⟨c.position + 1⟩
      else .error .pastEnd := by
  by_cases hcount : a.groupCount = 0
  · rw [if_pos hcount, nextPosition, ← groupCount, if_pos hcount]
  · rw [if_neg hcount, a.nextPosition_eq_of_pos (Nat.pos_of_ne_zero hcount)]

/-- A record without storage is not filled. -/
theorem materialize_of_unallocated (a : Aggregator) (c : Cursor) {out : Record}
    (hout : out.allocated = false) : (a.materialize c out).2 = (out, .error .recordNotAllocated) := by
  simp only [materialize, FlowRecord.isAllocated, hout, Bool.not_false, if_true]

/-- Where there is no group, no record is filled. -/
theorem materialize_of_empty (hcount : a.groupCount = 0) (c : Cursor) {out : Record}
    (hout : out.allocated = true) : (a.materialize c out).2 = (out, .error .empty) := by
  have hempty : a.table.isEmpty = true := by
    rw [TallyTable.isEmpty_eq, ← groupCount]
    exact decide_eq_true hcount
  simp only [materialize, FlowRecord.isAllocated, hout, hempty, Bool.not_true, Bool.false_eq_true,
    if_false, if_true]

/-- Behind the last group no record is filled: the order has no key there. -/
theorem Coherent.materialize_of_le (h : a.Coherent) (hcount : a.groupCount ≠ 0) {c : Cursor}
    (hc : a.groupCount ≤ c.position) {out : Record} (hout : out.allocated = true) :
    (a.materialize c out).2 = (out, .error .pastEnd) := by
  have hempty : a.table.isEmpty = false := by
    rw [TallyTable.isEmpty_eq, ← groupCount]
    exact decide_eq_false hcount
  have hkeys : a.sortedKeys.2 = (a.table.ordered a.layout a.ordering).map (·.1) :=
    (Prod.mk.inj h.sortedKeys_eq).2
  have hnone : a.sortedKeys.2[c.position]? = none := by
    rw [hkeys, List.getElem?_eq_none_iff, List.length_map, TallyTable.length_ordered]
    exact hc
  simp only [materialize, FlowRecord.isAllocated, hout, hempty, hnone, Bool.not_true,
    Bool.false_eq_true, if_false, Option.bind_none]

/-- At each position in front of the number of groups there is a key in the current order, and under
it a group with its derived values. A record with storage is filled with this group, and the group
fits the layout. -/
theorem Sound.exists_group (h : a.Sound) (hcoherent : a.Coherent) {c : Cursor}
    (hc : c.position < a.groupCount) :
    ∃ key tally, (a.table.rebuild a.layout a.ordering).2[c.position]? = some key ∧
      (a.table.rebuild a.layout a.ordering).1.find? key = some tally ∧ tally.Fits a.layout ∧
      ∀ out : Record, out.allocated = true →
        (a.materialize c out).2 = (tally.record a.layout, .ok ()) := by
  have hlt : c.position < (a.table.ordered a.layout a.ordering).length := by
    rwa [TallyTable.length_ordered]
  obtain ⟨⟨key, tally⟩, hgroup⟩ : ∃ e, (a.table.ordered a.layout a.ordering)[c.position]? = some e :=
    ⟨_, List.getElem?_eq_getElem hlt⟩
  refine ⟨key, tally, ?_, ?_, h.fits_of_ordered hgroup, fun out hout => ?_⟩
  · rw [TallyTable.rebuild_eq, List.getElem?_map, hgroup]
    rfl
  · rw [TallyTable.rebuild_eq, TallyTable.find?_mapTallies]
    exact h.placed.mem_ordered_iff.mp (List.mem_of_getElem? hgroup)
  · rw [h.materialize_eq hcoherent hgroup hout]

/-- What a position is good for in every state that records of this library lead to, however old the
position is. The next position is the one behind if there is a group there. A record is filled
exactly if it has storage and there is a group at the position; otherwise it is left as it was, and
the error says that it has no storage, or else that there is no group, or else that the position
lies behind the last one. A record that is filled is that of the group at the position in the
current order, whatever it held: each field in the catalog shows what the last value of the group
whose field writes its cell put there, or that there is none. So a column shows the value of the
group, or that it is absent, wherever no other column writes its cell. -/
theorem RecordReachable.cursor_outcome (h : a.RecordReachable) (c : Cursor) :
    (a.nextPosition c =
      if a.groupCount = 0 then .error .empty
      else if c.position + 1 < a.groupCount then .ok ⟨c.position + 1⟩
      else .error .pastEnd) ∧
    (∀ out : Record, (a.materialize c out).2.2 = .ok () ↔
      out.allocated = true ∧ c.position < a.groupCount) ∧
    (∀ out : Record, out.allocated = false →
      (a.materialize c out).2 = (out, .error .recordNotAllocated)) ∧
    (∀ out : Record, out.allocated = true → a.groupCount = 0 →
      (a.materialize c out).2 = (out, .error .empty)) ∧
    (∀ out : Record, out.allocated = true → a.groupCount ≠ 0 → a.groupCount ≤ c.position →
      (a.materialize c out).2 = (out, .error .pastEnd)) ∧
    (c.position < a.groupCount →
      ∃ key tally, (a.table.rebuild a.layout a.ordering).2[c.position]? = some key ∧
        (a.table.rebuild a.layout a.ordering).1.find? key = some tally ∧
        (a.layout.slots tally).map (·.1) = a.layout.fields ∧
        ∃ r : Record, (∀ out : Record, out.allocated = true →
            (a.materialize c out).2 = (r, .ok ())) ∧
          (∀ field : FieldId, field.type?.isSome = true →
            r.get field = Record.shown field
              (Cells.written (Record.cellOf field) (assignments a.layout tally)).getLast?) ∧
          ∀ field own, (field, own) ∈ a.layout.slots tally →
            (∀ f ∈ a.layout.fields, f ≠ field → Record.cellOf field ∉ f.cells) →
            r.get field = Record.shown field own) := by
  have hsound := h.sound
  have hcoherent := h.reachable.coherent
  refine ⟨a.nextPosition_eq c, fun out => ?_, fun out hout => a.materialize_of_unallocated c hout,
    fun out hout hcount => materialize_of_empty hcount c hout,
    fun out hout hcount hc => hcoherent.materialize_of_le hcount hc hout, fun hc => ?_⟩
  · cases hout : out.allocated with
    | false => simp [a.materialize_of_unallocated c hout]
    | true =>
      by_cases hc : c.position < a.groupCount
      · obtain ⟨key, tally, -, -, -, hfilled⟩ := hsound.exists_group hcoherent hc
        simp [hfilled out hout, hc]
      · by_cases hcount : a.groupCount = 0
        · simp [materialize_of_empty hcount c hout, hc]
        · simp [hcoherent.materialize_of_le hcount (Nat.le_of_not_lt hc) hout, hc]
  · obtain ⟨key, tally, hkey, hfound, hfits, hfilled⟩ := hsound.exists_group hcoherent hc
    exact ⟨key, tally, hkey, hfound, hfits.map_fst_slots, tally.record a.layout, hfilled,
      fun field hfield => get_record_of_catalog hsound.valid hfits hfield,
      fun field own hmem => (get_record hsound.valid hfits hmem).2⟩

/-- A run that writes two groups, is cleared and writes one. -/
def clearedRun : List Operation :=
  [.configure ⟨.srcPort, .key, .none, 0, 0⟩,
   .write (fillRecord Record.empty [(.srcPort, .u16 53)]).1,
   .write (fillRecord Record.empty [(.srcPort, .u16 80)]).1, .nextPosition ⟨0⟩, .clear,
   .configure ⟨.srcPort, .key, .none, 0, 0⟩,
   .write (fillRecord Record.empty [(.srcPort, .u16 22)]).1]

/-- The second position, from before the clearing, is behind the end and leaves a record alone; at
the first one the record shows the port of the only group and has forgotten what it held. -/
theorem cursor_outcome_clearedRun :
    let a := (new 2 TallyTable.polynomialSpread).run clearedRun
    let out := (fillRecord Record.empty [(.protocol, .u8 6)]).1
    a.nextPosition ⟨0⟩ = .error .pastEnd ∧ (a.materialize ⟨1⟩ out).2 = (out, .error .pastEnd) ∧
      ∃ r : Record, (a.materialize ⟨0⟩ out).2 = (r, .ok ()) ∧ r.get .srcPort = .ok (.u16 22) ∧
        r.get .protocol = .error (.notSet .protocol) := by
  intro a out
  have hreachable : a.RecordReachable := by
    refine ⟨2, TallyTable.polynomialSpread, clearedRun, ?_, rfl⟩
    simp [clearedRun, Operation.OnRecords]
  have hcount : a.groupCount = 1 := by decide +kernel
  have hout : out.allocated = true := by decide +kernel
  obtain ⟨hnext, -, -, -, -, hgroup⟩ := hreachable.cursor_outcome ⟨0⟩
  obtain ⟨-, -, -, -, hend, -⟩ := hreachable.cursor_outcome ⟨1⟩
  obtain ⟨key, tally, hkey, hfound, -, r, hfilled, hshown, hown⟩ := hgroup (by rw [hcount]; decide)
  have hkeyIs : (a.table.rebuild a.layout a.ordering).2[0]? = some "w:22;" := by decide +kernel
  obtain rfl : key = "w:22;" := Option.some.inj (hkey.symm.trans hkeyIs)
  have hfoundIs : (a.table.rebuild a.layout a.ordering).1.find? "w:22;" =
      some ⟨[.u16 22], []⟩ := by decide +kernel
  obtain rfl := Option.some.inj (hfound.symm.trans hfoundIs)
  refine ⟨?_, hend out hout (by rw [hcount]; decide) (by rw [hcount]), r, hfilled out hout, ?_, ?_⟩
  · rw [hnext, hcount]
    rfl
  · exact hown .srcPort (some (.u16 22)) (by decide +kernel) (by decide +kernel)
  · rw [hshown .protocol (by decide +kernel)]
    decide +kernel

/-- A record of two autonomous systems. -/
def systemsRecord (source destination : UInt32) : Record :=
  (fillRecord Record.empty [(.srcAs, .u32 source), (.dstAs, .u32 destination)]).1

/-- A run that groups by the pair of autonomous systems behind its destination member. -/
def systemsRun : List Operation :=
  [.configure ⟨.dstAs, .key, .none, 0, 0⟩, .configure ⟨.autonomousSystem, .key, .none, 0, 0⟩,
   .write (systemsRecord 1 2)]

/-- The first position is handed out before another record is written. The group that stands there
has the destination system 2, and the record that is filled with it shows 1. -/
theorem get_materialize_systemsRun :
    let a := (new 1 TallyTable.polynomialSpread).run systemsRun
    let b := a.step (.write (systemsRecord 3 4))
    b.RecordReachable ∧ a.firstPosition = .ok ⟨0⟩ ∧ b.groupCount = 4 ∧
      ∃ key tally, (b.table.rebuild b.layout b.ordering).2[0]? = some key ∧
        (b.table.rebuild b.layout b.ordering).1.find? key = some tally ∧
        (FieldId.dstAs, some (.u32 2)) ∈ b.layout.slots tally ∧
        ∃ r : Record, (b.materialize ⟨0⟩ Record.empty).2 = (r, .ok ()) ∧
          r.get .dstAs = .ok (.u32 1) := by
  intro a b
  have hreachable : b.RecordReachable := by
    refine ⟨1, TallyTable.polynomialSpread,
      systemsRun ++ [.write (systemsRecord 3 4)], ?_, by rw [run, List.foldl_append]; rfl⟩
    simp [systemsRun, Operation.OnRecords]
  have hsound := hreachable.sound
  have hsorted : (b.table.mapTallies (Derived.fill b.layout)).entries.Pairwise
      fun d e => b.layout.inOrder b.ordering d e = true := by decide +kernel
  have hgroup : (b.table.ordered b.layout b.ordering)[0]? =
      some ("d:2;d:1;", ⟨[.u32 2, .u32 1], []⟩) := by
    rw [← hsound.placed.eq_ordered (.refl _) hsorted]
    decide +kernel
  have hempty : Record.empty.allocated = true := rfl
  have hfilled := hsound.materialize_eq hreachable.reachable.coherent hgroup hempty
  refine ⟨hreachable, by decide +kernel, by decide +kernel, "d:2;d:1;", ⟨[.u32 2, .u32 1], []⟩,
    ?_, ?_, ?_, _, congrArg Prod.snd hfilled, ?_⟩
  · rw [TallyTable.rebuild_eq, List.getElem?_map, hgroup]
    rfl
  · rw [TallyTable.rebuild_eq, TallyTable.find?_mapTallies]
    exact hsound.placed.mem_ordered_iff.mp (List.mem_of_getElem? hgroup)
  · decide +kernel
  · decide +kernel

end Aggregator

end FlowTally
