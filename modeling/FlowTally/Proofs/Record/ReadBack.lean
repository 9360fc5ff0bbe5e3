import FlowTally.Proofs.Record.Line
import FlowTally.Proofs.Value.ReadBack

/-!
# Records read back

The members of the object of a record are sorted by name, so they are read in another order
than that of the fields. That makes no difference: a stored field is never a pair, so each
member fills the one cell that its name stands for, and no two fields have one name. A point in
time comes back in its settled form, so a record comes back as it is exactly if all its points in
time are settled.
-/

namespace FlowTally

namespace Record

/-- The members of the fields of a record that are stored. -/
def members (r : Record) : List (String × Json) := r.cells.map fun c => (c.1.name, c.2.toJson)

/-- A record with the settled forms of its values. -/
def settled (r : Record) : Record where
  allocated := r.allocated
  cells := r.cells.map fun c => (c.1, c.2.settled)
  ascending := r.ascending.map Value.settled
  typed := by
    intro c hc
    obtain ⟨d, hd, rfl⟩ := List.mem_map.mp hc
    rw [Value.type_settled]
    exact r.typed d hd
  cells_eq_nil h := by rw [r.cells_eq_nil h, List.map_nil]

variable {r s : Record} {c d : FieldId × Value}

/-- A stored field is in the catalog. -/
theorem isSome_of_mem (h : c ∈ r.cells) : c.1.type?.isSome = true := by
  rw [(r.typed c h).1]
  rfl

/-- A stored value is found. -/
theorem lookup_of_mem (h : c ∈ r.cells) : Assoc.lookup c.1 r.cells = some c.2 :=
  (r.ascending.mem_iff FieldId.lt_irrefl).mp h

/-- A cell of the settled record holds the settled form of what the record holds there. -/
theorem lookup_settled (r : Record) (f : FieldId) :
    Assoc.lookup f r.settled.cells = (Assoc.lookup f r.cells).map Value.settled :=
  Assoc.lookup_map Value.settled f r.cells

/-- A stored value is found in its settled form in the settled record. -/
theorem lookup_settled_of_mem (h : c ∈ r.cells) :
    Assoc.lookup c.1 r.settled.cells = some c.2.settled := by
  rw [lookup_settled, lookup_of_mem h, Option.map_some]

/-- A stored value is read. -/
theorem get_of_mem (ha : r.allocated = true) (h : c ∈ r.cells) : r.get c.1 = .ok c.2 := by
  rw [get_eq ha (isSome_of_mem h), cellOf_of_isPair (r.typed c h).2, lookup_of_mem h]
  rfl

/-- Stored fields of one name are the same, with their values. -/
theorem eq_of_name_eq (hc : c ∈ r.cells) (hd : d ∈ r.cells) (h : c.1.name = d.1.name) : c = d := by
  have hfield : c.1 = d.1 := FieldId.name_inj (isSome_of_mem hc) (isSome_of_mem hd) h
  have hvalue : c.2 = d.2 :=
    Option.some.inj ((lookup_of_mem hc).symm.trans (hfield ▸ lookup_of_mem hd))
  exact Prod.ext hfield hvalue

/-- All stored fields of a record make the object of its members. -/
theorem toJson_fields (ha : r.allocated = true) :
    FlowRecord.toJson r r.fields = .ok (.ofMembers r.members) := by
  have hreadable : ∀ f ∈ r.fields, FlowRecord.Readable r f := by
    intro f hf
    obtain ⟨c, hc, rfl⟩ := List.mem_map.mp hf
    exact .inl ⟨c.2, get_of_mem ha hc⟩
  have hmember : ∀ c ∈ r.cells,
      (FlowRecord.member? r ∘ Prod.fst) c = (some ∘ fun c => (c.1.name, c.2.toJson)) c := by
    intro c hc
    have hget : FlowRecord.get r c.1 = .ok c.2 := get_of_mem ha hc
    simp only [Function.comp_apply, FlowRecord.member?, hget]
  rw [FlowRecord.toJson_eq hreadable, FlowRecord.object, fields, List.filterMap_map,
    List.filterMap_congr hmember, List.filterMap_eq_map]
  rfl

/-- The member of a stored field fills the cell of the field. -/
theorem exists_addMember (hs : s.allocated = true) (hc : c ∈ r.cells) (hexact : c.2.IsExact) :
    ∃ t : Record, addMember s c.1.name c.2.toJson = .ok t ∧ t.allocated = true ∧
      ∀ f, Assoc.lookup f t.cells =
        if f = c.1 then some c.2.settled else Assoc.lookup f s.cells := by
  obtain ⟨htype, hpair⟩ := r.typed c hc
  obtain ⟨t, hset, hallocated, hcells⟩ :=
    exists_set hs (htype.trans (congrArg some c.2.type_settled.symm))
  refine ⟨t, ?_, hallocated, fun f => ?_⟩
  · have hnotNull : c.2.toJson ≠ .null := fun h => by
      have hscalar := Value.isScalar_toJson hexact
      rw [h] at hscalar
      exact hscalar
    have hname : FieldId.ofName? c.1.name = some c.1 := FieldId.ofName?_name (isSome_of_mem hc)
    unfold addMember
    split
    · next hnull => exact absurd hnull hnotNull
    · simp only [hname, htype, Value.ofJson_toJson hexact, hset]
  · rw [hcells, Cells.lookup_store, FieldId.cells_of_isPair hpair]
    simp only [List.mem_singleton]

/-- Members of stored fields fill the cells of these fields and leave the others alone. -/
theorem exists_addMembers (hexact : ∀ c ∈ r.cells, c.2.IsExact) {ms : List (String × Json)}
    (hms : ∀ m ∈ ms, m ∈ r.members) (hs : s.allocated = true)
    (hheld : ∀ f v, Assoc.lookup f s.cells = some v → Assoc.lookup f r.settled.cells = some v) :
    ∃ t : Record, addMembers s ms = .ok t ∧ t.allocated = true ∧
      (∀ f v, Assoc.lookup f t.cells = some v → Assoc.lookup f r.settled.cells = some v) ∧
      ∀ c ∈ r.cells, Assoc.lookup c.1 s.cells = some c.2.settled ∨ (c.1.name, c.2.toJson) ∈ ms →
        Assoc.lookup c.1 t.cells = some c.2.settled := by
  induction ms generalizing s with
  | nil =>
    refine ⟨s, rfl, hs, hheld, fun c _ h => h.resolve_right List.not_mem_nil⟩
  | cons m rest ih =>
    obtain ⟨d, hd, rfl⟩ := List.mem_map.mp (hms m List.mem_cons_self)
    obtain ⟨u, hadd, hu, hlookup⟩ := exists_addMember hs hd (hexact d hd)
    have hheld' : ∀ f v, Assoc.lookup f u.cells = some v →
        Assoc.lookup f r.settled.cells = some v := by
      intro f v hf
      rw [hlookup] at hf
      split at hf
      · next hfield => rw [hfield, lookup_settled_of_mem hd, hf]
      · exact hheld f v hf
    obtain ⟨t, hrest, ht, hheldAll, hall⟩ :=
      ih (fun m hm => hms m (List.mem_cons_of_mem _ hm)) hu hheld'
    refine ⟨t, by rw [addMembers, hadd]; exact hrest, ht, hheldAll, fun c hc h => hall c hc ?_⟩
    -- The first member fills the cell of its field; another cell keeps what it holds.
    by_cases hname : c.1.name = d.1.name
    · have hsame : c = d := eq_of_name_eq hc hd hname
      exact .inl (by rw [hlookup, hsame, if_pos rfl])
    · rcases h with h | h
      · have hne : c.1 ≠ d.1 := fun he => hname (congrArg FieldId.name he)
        exact .inl (by rw [hlookup, if_neg hne, h])
      · refine .inr ((List.mem_cons.mp h).resolve_left fun he => hname ?_)
        exact congrArg Prod.fst he

/-- Records with storage that hold the same are equal. -/
theorem ext_lookup (hr : r.allocated = true) (hs : s.allocated = true)
    (h : ∀ f, Assoc.lookup f r.cells = Assoc.lookup f s.cells) : r = s := by
  have hcells : r.cells = s.cells :=
    r.ascending.ext FieldId.lt_irrefl FieldId.lt_trans s.ascending h
  cases r
  cases s
  simp_all

/-- A record is its settled form exactly if all its points in time are settled. -/
theorem settled_eq_self_iff (hr : r.allocated = true) :
    r.settled = r ↔ ∀ c ∈ r.cells, ∀ t, c.2 = .timestamp t → t.IsSettled := by
  constructor
  · intro h c hc
    refine Value.settled_eq_self_iff.mp ?_
    have hfound := lookup_settled_of_mem hc
    rw [h, lookup_of_mem hc] at hfound
    exact (Option.some.inj hfound).symm
  · intro h
    refine ext_lookup hr hr fun f => ?_
    rw [lookup_settled]
    cases hf : Assoc.lookup f r.cells with
    | none => rfl
    | some v =>
      have hv := h (f, v) (Assoc.mem_of_lookup hf)
      rw [Option.map_some, Value.settled_eq_self_iff.mpr hv]

/-- The line of all stored fields of a record reads back as the settled record, if the record has
storage and its values are exact. -/
theorem exists_ofLine_settled (hr : r.allocated = true) (hexact : ∀ c ∈ r.cells, c.2.IsExact) :
    ∃ j, FlowRecord.toJson r r.fields = .ok j ∧ ofLine j.compact = .ok r.settled := by
  refine ⟨.ofMembers r.members, toJson_fields hr, ?_⟩
  obtain ⟨sorted, hsorted, hascending, hmembers, hnames⟩ := Json.exists_ofMembers r.members
  have hscalar : ∀ m ∈ sorted, m.2.IsScalar := by
    intro m hm
    obtain ⟨c, hc, rfl⟩ := List.mem_map.mp (hmembers m hm)
    exact Value.isScalar_toJson (hexact c hc)
  obtain ⟨t, hadd, ht, hheld, hall⟩ := exists_addMembers hexact hmembers
    (show empty.allocated = true from rfl) (fun f v h => by cases h)
  have hstored : ∀ c ∈ r.cells, (c.1.name, c.2.toJson) ∈ sorted := by
    intro c hc
    obtain ⟨j, hj⟩ := hnames _ (List.mem_map_of_mem hc)
    obtain ⟨d, hd, heq⟩ := List.mem_map.mp (hmembers _ hj)
    have hsame : c = d := eq_of_name_eq hc hd (congrArg Prod.fst heq).symm
    rwa [hsame, heq]
  have hlookup : ∀ f, Assoc.lookup f t.cells = Assoc.lookup f r.settled.cells := by
    intro f
    cases hf : Assoc.lookup f r.cells with
    | some v =>
      have hmem : (f, v) ∈ r.cells := Assoc.mem_of_lookup hf
      rw [hall (f, v) hmem (.inr (hstored (f, v) hmem)), lookup_settled_of_mem hmem]
    | none =>
      have hnone : Assoc.lookup f r.settled.cells = none := by rw [lookup_settled, hf]; rfl
      rw [hnone]
      refine Option.eq_none_iff_forall_ne_some.mpr fun v hv => ?_
      rw [hheld f v hv] at hnone
      cases hnone
  rw [hsorted, ofLine, Json.read?_compact hascending hscalar]
  exact hadd.trans (congrArg _ (ext_lookup ht hr hlookup))

/-- The line of all stored fields of a record reads back as the record, if the record has storage
and its values are exact, up to the settled forms of its points in time: the record itself comes
back exactly if none of them goes past the end of a second inside a minute. -/
theorem ofLine_fields (hr : r.allocated = true) (hexact : ∀ c ∈ r.cells, c.2.IsExact) :
    (∃ j, FlowRecord.toJson r r.fields = .ok j ∧ ofLine j.compact = .ok r.settled) ∧
      (r.settled = r ↔ ∀ c ∈ r.cells, ∀ t, c.2 = .timestamp t → t.IsSettled) :=
  ⟨exists_ofLine_settled hr hexact, settled_eq_self_iff hr⟩

/-- A record with a leap second, the largest words, a text with escapes, both families of
addresses, a link-layer address and byte strings. -/
def mixed : Record where
  allocated := true
  cells := [
    (.first, .timestamp ⟨1483228799, 1999000000, by decide, by decide, by decide⟩),
    (.bytes, .u64 0xffffffffffffffff),
    (.srcPort, .u16 0xffff),
    (.dstPort, .u16 0),
    (.tcpFlags, .u8 0xff),
    (.srcAddr, .addr (.v4 0xc0a80101)),
    (.dstAddr, .addr (.v6 0x20010db8000000000000000000000001)),
    (.srcAs, .u32 0xffffffff),
    (⟨0x22⟩, .mac ⟨[0x00, 0x1b, 0x44, 0x11, 0x3a, 0xb7], rfl⟩),
    (⟨0x26⟩, .blob [0x00, 0xff]),
    (⟨0x3b⟩, .blob []),
    (⟨0x40⟩, .string "\"über\" \\ \n\u0001")]
  ascending := by unfold Assoc.Ascending; decide
  typed := by unfold Cells.Typed; decide
  cells_eq_nil := nofun

/-- The mixed record reads back. -/
theorem ofLine_mixed :
    mixed.allocated = true ∧ (∀ c ∈ mixed.cells, c.2.IsExact) ∧
      ∃ j, FlowRecord.toJson mixed mixed.fields = .ok j ∧ ofLine j.compact = .ok mixed := by
  have hexact : ∀ c ∈ mixed.cells, c.2.IsExact := by decide
  obtain ⟨hread, hsettled⟩ := ofLine_fields rfl hexact
  have htimes : ∀ c ∈ mixed.cells, ∀ t, c.2 = .timestamp t → t.IsSettled := by
    intro c hc t ht
    have hall : ∀ d ∈ mixed.cells, d.2.settled = d.2 := by decide
    exact Value.settled_eq_self_iff.mp (hall c hc) t ht
  rw [hsettled.mpr htimes] at hread
  exact ⟨rfl, hexact, hread⟩

/-- A record of a flow that began half a second past the end of a second inside a minute. -/
def overrunRecord : Record where
  allocated := true
  cells := [(.first, .timestamp .overrun)]
  ascending := by unfold Assoc.Ascending; decide
  typed := by unfold Cells.Typed; decide
  cells_eq_nil := nofun

/-- The line of the record names the middle of the next second, so another record is read back. -/
theorem ofLine_overrunRecord :
    overrunRecord.allocated = true ∧ (∀ c ∈ overrunRecord.cells, c.2.IsExact) ∧
      ∃ j s, FlowRecord.toJson overrunRecord overrunRecord.fields = .ok j ∧
        j.compact = "\x7b\"first\":\"1970-01-01T00:00:01.500Z\"\x7d" ∧
        ofLine j.compact = .ok s ∧ s ≠ overrunRecord := by
  have hexact : ∀ c ∈ overrunRecord.cells, c.2.IsExact := by decide
  obtain ⟨j, hj, hread⟩ := exists_ofLine_settled (r := overrunRecord) rfl hexact
  have hmembers : Json.ofMembers overrunRecord.members = j :=
    Except.ok.inj ((toJson_fields rfl).symm.trans hj)
  refine ⟨rfl, hexact, j, _, hj, ?_, hread, by decide⟩
  rw [← hmembers]
  decide +kernel

end Record

end FlowTally
