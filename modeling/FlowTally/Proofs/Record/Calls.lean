import FlowTally.Proofs.Record.Cells
import Mathlib.Data.List.Induction

/-!
# The last value written is the value read

A record is driven by calls that set a field or clear all of them. A call that is refused
leaves the record as it was, and any other call changes the cells it is addressed to and no
more. So a field shows what was written last to the cell it is read from, through whichever
field, unless the record was cleared since.
-/

namespace FlowTally

namespace FieldId

/-- The cell that a field is read from. -/
inductive ReadsFrom : FieldId → FieldId → Prop where
  /-- A field that is no pair has a cell of its own. -/
  | own {f : FieldId} (h : ∀ p ∈ pairs, p.1 ≠ f) : ReadsFrom f f
  /-- A pair is read from its source member. -/
  | source {f source destination : FieldId} (h : (f, source, destination) ∈ pairs) :
    ReadsFrom f source

/-- The cells that a field is written to. -/
inductive WritesTo : FieldId → FieldId → Prop where
  /-- A field that is no pair is written to its own cell. -/
  | own {f : FieldId} (h : ∀ p ∈ pairs, p.1 ≠ f) : WritesTo f f
  /-- A pair is written to its source member. -/
  | source {f source destination : FieldId} (h : (f, source, destination) ∈ pairs) :
    WritesTo f source
  /-- A pair is written to its destination member. -/
  | destination {f source destination : FieldId} (h : (f, source, destination) ∈ pairs) :
    WritesTo f destination

/-- Writing a field reaches the cell that another is read from. -/
def Addresses (g f : FieldId) : Prop := ∃ cell, g.WritesTo cell ∧ f.ReadsFrom cell

/-- The members of a pair are those that stand beside it. -/
theorem members?_of_mem {f source destination : FieldId}
    (h : (f, source, destination) ∈ pairs) : f.members? = some (source, destination) := by
  have hall : ∀ p ∈ pairs, p.1.members? = some p.2 := by decide
  exact hall _ h

/-- A field without members is none of the pairs. -/
theorem members?_eq_none_iff {f : FieldId} : f.members? = none ↔ ∀ p ∈ pairs, p.1 ≠ f := by
  simp only [members?, Option.map_eq_none_iff, List.find?_eq_none, decide_eq_true_eq, ne_eq]

/-- The cell of a field is the one it is read from. -/
theorem readsFrom_iff {f cell : FieldId} : f.ReadsFrom cell ↔ Record.cellOf f = cell := by
  constructor
  · rintro (h | h)
    · rw [Record.cellOf, members?_eq_none_iff.mpr h]
      rfl
    · rw [Record.cellOf, members?_of_mem h]
      rfl
  · rintro rfl
    unfold Record.cellOf
    cases hm : f.members? with
    | none => exact .own (members?_eq_none_iff.mp hm)
    | some members => exact .source (mem_pairs_of_members? hm)

/-- The cells of a field are those it is written to. -/
theorem writesTo_iff {f cell : FieldId} : f.WritesTo cell ↔ cell ∈ f.cells := by
  constructor
  · rintro (h | h | h)
    · rw [cells, members?_eq_none_iff.mpr h]
      exact List.mem_singleton_self f
    · rw [cells, members?_of_mem h]
      exact List.mem_cons_self
    · rw [cells, members?_of_mem h]
      exact List.mem_cons_of_mem _ List.mem_cons_self
  · intro h
    unfold cells at h
    cases hm : f.members? with
    | none =>
      rw [hm] at h
      obtain rfl := List.mem_singleton.mp h
      exact .own (members?_eq_none_iff.mp hm)
    | some members =>
      obtain ⟨source, destination⟩ := members
      rw [hm] at h
      rcases List.mem_pair.mp h with rfl | rfl
      · exact .source (mem_pairs_of_members? hm)
      · exact .destination (mem_pairs_of_members? hm)

/-- A field addresses another if it writes the cell of the other. -/
theorem addresses_iff {g f : FieldId} : g.Addresses f ↔ Record.cellOf f ∈ g.cells := by
  simp only [Addresses, writesTo_iff, readsFrom_iff, exists_eq_right']

/-- A field has the type of every field that addresses it. -/
theorem Addresses.type_eq {g f : FieldId} (h : g.Addresses f) : f.type? = g.type? := by
  rw [← Record.type_cellOf f]
  exact (cells_types (addresses_iff.mp h)).1

end FieldId

namespace Record

/-- One call on a record. -/
inductive Call where
  /-- Writes a value to a field. -/
  | set (field : FieldId) (value : Value)
  /-- Takes the values of all fields away. -/
  | clear

/-- A call writes a value to the cell that a field is read from: it sets a field of the catalog
that addresses the cell, to a value of its type. -/
def Call.Writes (f : FieldId) (v : Value) : Call → Prop
  | .set field value => value = v ∧ field.type? = some value.type ∧ field.Addresses f
  | .clear => False

/-- A call leaves the cell that a field is read from alone. -/
def Call.Spares (f : FieldId) (c : Call) : Prop := c ≠ .clear ∧ ∀ v, ¬c.Writes f v

/-- The record after a call. One that is refused leaves it as it was. -/
def call (r : Record) : Call → Record
  | .set field value =>
    match r.set field value with
    | .ok s => s
    | .error _ => r
  | .clear => r.clear

/-- The record after calls on a new one. -/
def after (calls : List Call) : Record := calls.foldl call empty

/-- A value was written to the cell that a field is read from, and the calls behind that one
leave the cell alone. -/
def LastWritten (calls : List Call) (f : FieldId) (v : Value) : Prop :=
  ∃ before c behind, calls = before ++ c :: behind ∧ c.Writes f v ∧ ∀ d ∈ behind, d.Spares f

section

variable {r : Record} {calls : List Call} {c : Call} {f : FieldId} {v : Value}

/-- Why a record with storage refuses a value. -/
theorem set_eq_error_iff (ha : r.allocated = true) {e : RecordError} :
    r.set f v = .error e ↔
      f.type? = none ∧ e = .unknownField f ∨
        ∃ expected, f.type? = some expected ∧ expected ≠ v.type ∧
          e = .typeMismatch f expected v.type := by
  unfold set
  rw [dif_neg (by simp [ha])]
  split
  · next hnone => simp [hnone, eq_comm]
  · next expected hsome =>
    by_cases hvalue : expected = v.type
    · simp [hsome, hvalue]
    · simp [hsome, hvalue, eq_comm]

/-- A record with storage takes exactly the values of the type of the field. -/
theorem exists_set_iff (ha : r.allocated = true) :
    (∃ s, r.set f v = .ok s) ↔ f.type? = some v.type := by
  constructor
  · rintro ⟨s, hs⟩
    by_contra htype
    obtain ⟨e, he⟩ : ∃ e, r.set f v = .error e := by
      cases hf : f.type? with
      | none => exact ⟨_, (set_eq_error_iff ha).mpr (.inl ⟨hf, rfl⟩)⟩
      | some expected =>
        have hne : expected ≠ v.type := fun h => htype (hf.trans (congrArg some h))
        exact ⟨_, (set_eq_error_iff ha).mpr (.inr ⟨expected, hf, hne, rfl⟩)⟩
    rw [hs] at he
    cases he
  · intro htype
    obtain ⟨s, hs, -⟩ := exists_set ha htype
    exact ⟨s, hs⟩

/-- A refused call leaves the record as it was. -/
theorem call_of_error {e : RecordError} (h : r.set f v = .error e) : r.call (.set f v) = r := by
  rw [call, h]

/-- A call keeps the storage of a record. -/
theorem allocated_call (ha : r.allocated = true) : (r.call c).allocated = true := by
  cases c with
  | set field value =>
    cases hs : r.set field value with
    | ok s =>
      rw [call, hs]
      exact (set_spec hs).2.1
    | error e => rwa [call_of_error hs]
  | clear => exact ha

/-- A cell holds the value that a call writes to it. -/
theorem lookup_call_of_writes (ha : r.allocated = true) (h : c.Writes f v) :
    Assoc.lookup (cellOf f) (r.call c).cells = some v := by
  cases c with
  | set field value =>
    obtain ⟨rfl, htype, haddress⟩ := h
    obtain ⟨s, hs, -, hcells⟩ := exists_set ha htype
    rw [call, hs]
    dsimp only
    rw [hcells, Cells.lookup_store, if_pos (FieldId.addresses_iff.mp haddress)]
  | clear => exact h.elim

/-- A cell holds what it held if a call leaves it alone. -/
theorem lookup_call_of_spares (ha : r.allocated = true) (h : c.Spares f) :
    Assoc.lookup (cellOf f) (r.call c).cells = Assoc.lookup (cellOf f) r.cells := by
  cases c with
  | set field value =>
    cases hs : r.set field value with
    | ok s =>
      have htype : field.type? = some value.type := (exists_set_iff ha).mp ⟨s, hs⟩
      have hspared : cellOf f ∉ field.cells := fun hmem =>
        h.2 value ⟨rfl, htype, FieldId.addresses_iff.mpr hmem⟩
      rw [call, hs]
      dsimp only
      rw [(set_spec hs).2.2, Cells.lookup_store, if_neg hspared]
    | error e => rw [call_of_error hs]
  | clear => exact absurd rfl h.1

/-- After a call a cell holds the value that the call writes, or the one it held if the call leaves
it alone. -/
theorem lookup_call_iff (ha : r.allocated = true) :
    Assoc.lookup (cellOf f) (r.call c).cells = some v ↔
      c.Writes f v ∨ c.Spares f ∧ Assoc.lookup (cellOf f) r.cells = some v := by
  constructor
  · intro h
    by_cases hspares : c.Spares f
    · exact .inr ⟨hspares, (lookup_call_of_spares ha hspares).symm.trans h⟩
    · -- A call that does not leave the cell alone clears the record or writes one value.
      rw [Call.Spares, not_and, not_forall_not] at hspares
      by_cases hclear : c = .clear
      · subst hclear
        exact nomatch h
      · obtain ⟨w, hw⟩ := hspares hclear
        obtain rfl := Option.some.inj ((lookup_call_of_writes ha hw).symm.trans h)
        exact .inl hw
  · rintro (hwrites | ⟨hspares, h⟩)
    · exact lookup_call_of_writes ha hwrites
    · exact (lookup_call_of_spares ha hspares).trans h

/-- The last call writes the value, or leaves the cell to the calls in front of it. -/
theorem lastWritten_concat :
    LastWritten (calls ++ [c]) f v ↔ c.Writes f v ∨ c.Spares f ∧ LastWritten calls f v := by
  constructor
  · rintro ⟨before, d, behind, heq, hd, hbehind⟩
    rcases List.eq_nil_or_concat behind with rfl | ⟨front, last, rfl⟩
    · obtain ⟨-, hlast⟩ := List.append_inj' heq rfl
      obtain rfl := List.head_eq_of_cons_eq hlast
      exact .inl hd
    · rw [List.concat_eq_append, ← List.cons_append, ← List.append_assoc] at heq
      obtain ⟨rfl, hlast⟩ := List.append_inj' heq rfl
      obtain rfl := List.head_eq_of_cons_eq hlast
      rw [List.concat_eq_append] at hbehind
      refine .inr ⟨hbehind c (List.mem_append_right _ (List.mem_singleton_self c)), ?_⟩
      exact ⟨before, d, front, rfl, hd, fun x hx => hbehind x (List.mem_append_left _ hx)⟩
  · rintro (hc | ⟨hc, before, d, behind, rfl, hd, hbehind⟩)
    · exact ⟨calls, c, [], rfl, hc, fun _ hx => absurd hx List.not_mem_nil⟩
    · refine ⟨before, d, behind ++ [c], by rw [List.append_assoc, List.cons_append], hd, ?_⟩
      intro x hx
      rcases List.mem_append.mp hx with hx | hx
      · exact hbehind x hx
      · rwa [List.mem_singleton.mp hx]

/-- A value that was written has the type of every field that is read from its cell. -/
theorem LastWritten.type_eq (h : LastWritten calls f v) : f.type? = some v.type := by
  obtain ⟨-, c, -, -, hc, -⟩ := h
  cases c with
  | set field value =>
    obtain ⟨rfl, htype, haddress⟩ := hc
    exact haddress.type_eq.trans htype
  | clear => exact hc.elim

/-- The record after one more call. -/
theorem after_concat (calls : List Call) (c : Call) :
    after (calls ++ [c]) = (after calls).call c := by
  rw [after, List.foldl_append]
  rfl

/-- After any calls the record has storage. -/
theorem allocated_after (calls : List Call) : (after calls).allocated = true := by
  induction calls using List.reverseRecOn with
  | nil => rfl
  | append_singleton calls c ih =>
    rw [after_concat]
    exact allocated_call ih

/-- After any calls a cell holds the value that was written to it last. -/
theorem lookup_after (calls : List Call) (f : FieldId) (v : Value) :
    Assoc.lookup (cellOf f) (after calls).cells = some v ↔ LastWritten calls f v := by
  induction calls using List.reverseRecOn with
  | nil =>
    constructor
    · exact fun h => nomatch h
    · rintro ⟨before, c, behind, heq, -⟩
      exact absurd heq.symm (List.append_ne_nil_of_right_ne_nil before (List.cons_ne_nil c behind))
  | append_singleton calls c ih =>
    rw [after_concat, lastWritten_concat, lookup_call_iff (allocated_after calls), ih]

end

/-- After any calls on a new record, accepted or refused, the record holds for each field that is
no pair the value that was written last to its cell since the record was last cleared, by the field
itself or by its pair, and holds nothing else. No pair has a value of its own, and each value has
the type of its field. Reading a field of the catalog gives the value that was written last to the
cell it is read from, and `notSet` if there is none. A value is accepted exactly if it has the type
of its field; a refused one leaves what every field shows as it was. -/
theorem after_holds_last_written (calls : List Call) :
    (∀ f v, (f, v) ∈ (after calls).cells ↔ f.isPair = false ∧ LastWritten calls f v) ∧
    (∀ x ∈ (after calls).cells, x.1.isPair = false ∧ x.1.type? = some x.2.type) ∧
    (∀ f, f.info?.isSome = true →
      (∀ v, (after calls).get f = .ok v ↔ LastWritten calls f v) ∧
      ((after calls).get f = .error (.notSet f) ↔ ∀ v, ¬LastWritten calls f v)) ∧
    ∀ f v,
      ((∃ s, (after calls).set f v = .ok s) ↔ f.type? = some v.type) ∧
      ∀ e, (after calls).set f v = .error e →
        (f.type? = none ∧ e = .unknownField f ∨
          ∃ expected, f.type? = some expected ∧ expected ≠ v.type ∧
            e = .typeMismatch f expected v.type) ∧
        ∀ g, (after (calls ++ [.set f v])).get g = (after calls).get g := by
  have ha := allocated_after calls
  have hcells : ∀ f v, (f, v) ∈ (after calls).cells ↔
      f.isPair = false ∧ LastWritten calls f v := by
    intro f v
    rw [(after calls).ascending.mem_iff FieldId.lt_irrefl, ← lookup_after]
    constructor
    · intro h
      have hpair := ((after calls).typed _ (Assoc.mem_of_lookup h)).2
      exact ⟨hpair, by rwa [cellOf_of_isPair hpair]⟩
    · rintro ⟨hpair, h⟩
      rwa [cellOf_of_isPair hpair] at h
  refine ⟨hcells, ?_, ?_, ?_⟩
  · rintro ⟨f, v⟩ hx
    obtain ⟨hpair, hlast⟩ := (hcells f v).mp hx
    exact ⟨hpair, hlast.type_eq⟩
  · intro f hf
    have hget := get_eq ha (show f.type?.isSome = true by rwa [FieldId.type?, Option.isSome_map])
    have hlookup := lookup_after calls f
    rw [hget]
    simp only [← hlookup]
    cases Assoc.lookup (cellOf f) (after calls).cells with
    | none => simp [shown]
    | some w => simp [shown]
  · intro f v
    refine ⟨exists_set_iff ha, fun e he => ⟨(set_eq_error_iff ha).mp he, fun g => ?_⟩⟩
    rw [after_concat, call_of_error he]

/-- Calls that set a port, clear the record, set both ports as a pair and then the destination port
alone, and last try a value of the wrong type for the source port. -/
def portCalls : List Call :=
  [.set .srcPort (.u16 1), .clear, .set .port (.u16 53), .set .dstPort (.u16 80),
    .set .srcPort (.u32 7)]

/-- The pair still shows the value that was written to it, and so does its source member; setting a
value of the wrong type once more is refused and changes nothing. -/
theorem after_portCalls :
    FieldId.port.info?.isSome = true ∧ (after portCalls).get .port = .ok (.u16 53) ∧
      LastWritten portCalls .port (.u16 53) ∧ LastWritten portCalls .dstPort (.u16 80) ∧
      (after portCalls).set .srcPort (.u32 7) = .error (.typeMismatch .srcPort .u16 .u32) ∧
      ∀ g, (after (portCalls ++ [.set .srcPort (.u32 7)])).get g = (after portCalls).get g := by
  have hrefused : (after portCalls).set .srcPort (.u32 7) =
      .error (.typeMismatch .srcPort .u16 .u32) := by rfl
  obtain ⟨-, -, hget, hset⟩ := after_holds_last_written portCalls
  refine ⟨by decide, by rfl, ?_, ?_, hrefused, ((hset _ _).2 _ hrefused).2⟩
  · exact ((hget .port (by decide)).1 _).mp (by rfl)
  · exact ((hget .dstPort (by decide)).1 _).mp (by rfl)

end Record

end FlowTally
