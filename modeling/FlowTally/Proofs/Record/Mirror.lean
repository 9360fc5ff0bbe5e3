import FlowTally.Proofs.Record.Cells

/-!
# Mirror images of records

The mirror image of a record has the values of the source and the destination member of every pair
exchanged; where only one of them is set, the other one is set in the image. No other field changes.
-/

namespace FlowTally

namespace FieldId

/-- Whether a field is the source or the destination member of a pair. -/
def isMember (f : FieldId) : Bool := pairs.any fun p => decide (f = p.2.1 ∨ f = p.2.2)

/-- The other member of the pair that a field is a member of. Any other field is its own
opposite. -/
def opposite (f : FieldId) : FieldId :=
  match pairs.find? fun p => decide (f = p.2.1 ∨ f = p.2.2) with
  | some (_, source, destination) => if f = source then destination else source
  | none => f

/-- The members of a pair are opposite to each other. -/
theorem opposite_members : ∀ p ∈ pairs, p.2.1.opposite = p.2.2 ∧ p.2.2.opposite = p.2.1 := by
  decide

/-- A field that is a member of no pair is its own opposite. -/
theorem opposite_of_isMember {f : FieldId} (h : f.isMember = false) : f.opposite = f := by
  have hnone : pairs.find? (fun p => decide (f = p.2.1 ∨ f = p.2.2)) = none := by
    rw [List.find?_eq_none]
    rw [isMember, List.any_eq_false] at h
    exact h
  rw [opposite, hnone]

/-- A field is a member of a pair and its opposite the other one, or it is its own opposite. -/
theorem opposite_cases (f : FieldId) :
    (∃ p ∈ pairs, (f = p.2.1 ∧ f.opposite = p.2.2) ∨ (f = p.2.2 ∧ f.opposite = p.2.1)) ∨
      f.opposite = f := by
  cases hmember : f.isMember with
  | false => exact .inr (opposite_of_isMember hmember)
  | true =>
    obtain ⟨p, hp, hf⟩ := List.any_eq_true.mp hmember
    obtain ⟨hsource, hdestination⟩ := opposite_members p hp
    rcases of_decide_eq_true hf with rfl | rfl
    · exact .inl ⟨p, hp, .inl ⟨rfl, hsource⟩⟩
    · exact .inl ⟨p, hp, .inr ⟨rfl, hdestination⟩⟩

/-- The opposite of the opposite is the field itself. -/
@[simp] theorem opposite_opposite (f : FieldId) : f.opposite.opposite = f := by
  rcases f.opposite_cases with ⟨p, hp, ⟨rfl, hf⟩ | ⟨rfl, hf⟩⟩ | hf
  · rw [hf, (opposite_members p hp).2]
  · rw [hf, (opposite_members p hp).1]
  · rw [hf, hf]

/-- Opposite fields have one type, and neither is a pair if the other is none. -/
theorem type_opposite (f : FieldId) :
    f.opposite.type? = f.type? ∧ f.opposite.isPair = f.isPair := by
  rcases f.opposite_cases with ⟨p, hp, ⟨rfl, hf⟩ | ⟨rfl, hf⟩⟩ | hf
  · obtain ⟨⟨hsource, hplain⟩, hdestination, hplain'⟩ := pairs_types p hp
    rw [hf, hsource, hdestination, hplain, hplain']
    exact ⟨rfl, rfl⟩
  · obtain ⟨⟨hsource, hplain⟩, hdestination, hplain'⟩ := pairs_types p hp
    rw [hf, hsource, hdestination, hplain, hplain']
    exact ⟨rfl, rfl⟩
  · rw [hf]
    exact ⟨rfl, rfl⟩

end FieldId

namespace Record

/-- The cells of a record under the opposite fields, in no particular order. -/
def turned (r : Record) : List (FieldId × Value) := r.cells.map fun c => (c.1.opposite, c.2)

/-- The mirror image of a record. -/
def mirror (r : Record) : Record where
  allocated := r.allocated
  cells := r.turned.foldl (fun cells c => Assoc.insert c.1 c.2 cells) []
  ascending := Assoc.Ascending.insertAll FieldId.lt_trans FieldId.lt_of_not_lt _ List.Pairwise.nil
  typed c hc := by
    rcases Assoc.mem_of_mem_insertAll hc with hc | hc
    · exact absurd hc List.not_mem_nil
    · obtain ⟨d, hd, rfl⟩ := List.mem_map.mp hc
      obtain ⟨htype, hpair⟩ := d.1.type_opposite
      exact ⟨htype.trans (r.typed d hd).1, hpair.trans (r.typed d hd).2⟩
  cells_eq_nil h := by rw [turned, r.cells_eq_nil h, List.map_nil, List.foldl_nil]

/-- The image holds under each field what the record holds under the opposite one. -/
theorem lookup_mirror (r : Record) (f : FieldId) :
    Assoc.lookup f r.mirror.cells = Assoc.lookup f.opposite r.cells := by
  have hback : ∀ v, Assoc.lookup f r.mirror.cells = some v →
      Assoc.lookup f.opposite r.cells = some v := by
    intro v hv
    rcases Assoc.mem_of_mem_insertAll (Assoc.mem_of_lookup hv) with hmem | hmem
    · exact absurd hmem List.not_mem_nil
    · obtain ⟨⟨g, w⟩, hg, heq⟩ := List.mem_map.mp hmem
      obtain ⟨rfl, rfl⟩ := Prod.mk.inj heq
      rw [FieldId.opposite_opposite]
      exact (r.ascending.mem_iff FieldId.lt_irrefl).mp hg
  cases hheld : Assoc.lookup f.opposite r.cells with
  | none =>
    cases himage : Assoc.lookup f r.mirror.cells with
    | none => rfl
    | some v => exact absurd (hback v himage) (by simp [hheld])
  | some v =>
    have hturned : ∃ e ∈ r.turned, e.1 = f :=
      ⟨(f.opposite.opposite, v), List.mem_map_of_mem (Assoc.mem_of_lookup hheld),
        f.opposite_opposite⟩
    obtain ⟨w, hw⟩ : ∃ w, Assoc.lookup f r.mirror.cells = some w :=
      Assoc.exists_lookup_insertAll (.inr hturned)
    have hsame : v = w := Option.some.inj (hheld.symm.trans (hback w hw))
    rw [hsame]
    exact hw

end Record

end FlowTally
