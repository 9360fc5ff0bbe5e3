import FlowTally.Proofs.Json.Written
import FlowTally.Proofs.Record.Line

/-!
# What the members of a line give

The members of a line are applied in ascending order of their names, and a pair is written to both
of its sides. So a field shows the value of the last name among those that write its cell. Only four
sides have a name in front of that of their pair: there the pair is written over a value that the
line gives to the side itself. Every other field that a line names keeps its own value.
-/

namespace FlowTally

/-- In a list with ascending keys, what is made of an entry stands last if nothing is made of those
behind it. -/
theorem Assoc.Ascending.getLast?_filterMap {κ α β : Type} [LT κ] {entries : List (κ × α)}
    (h : Ascending entries) {g : κ × α → Option β} {x : κ × α} (hx : x ∈ entries) {v : β}
    (hv : g x = some v) (hlater : ∀ y ∈ entries, x.1 < y.1 → g y = none) :
    (entries.filterMap g).getLast? = some v := by
  obtain ⟨front, back, rfl⟩ := List.append_of_mem hx
  have hback : back.filterMap g = [] := by
    refine List.filterMap_eq_nil_iff.mpr fun y hy => ?_
    have hbehind := (List.pairwise_append.mp h).2.1
    exact hlater y (List.mem_append_right front (List.mem_cons_of_mem x hy))
      ((List.pairwise_cons.mp hbehind).1 y hy)
  rw [List.filterMap_append, List.filterMap_cons_some hv, hback, List.getLast?_concat]

namespace FieldId

/-- The value of a field that a JSON value holds. -/
def reading? (f : FieldId) (raw : Json) : Option Value :=
  f.type?.bind fun type => (Value.ofJson type raw).toOption

/-- The sides of pairs whose name stands in front of the name of their pair. -/
def frontSides : List FieldId := [dstPort, dstAddr, srcVlan, dstVlan]

/-- Null holds no value. -/
theorem reading?_null (f : FieldId) : f.reading? .null = none := by
  unfold reading?
  cases f.type? with
  | none => rfl
  | some type => cases type <;> rfl

/-- A value that is held has the type of its field, which is in the catalog. -/
theorem isSome_of_reading? {f : FieldId} {raw : Json} {v : Value} (h : f.reading? raw = some v) :
    f.type?.isSome = true := by
  obtain ⟨type, htype, -⟩ := Option.bind_eq_some_iff.mp h
  rw [htype]
  rfl

/-- The name that stands for a field is the name of the field. -/
theorem name_of_ofName? {name : String} {f : FieldId} (h : ofName? name = some f) :
    f.name = name := by
  have hnames : ∀ e ∈ catalog, e.field.name = e.name := by decide +kernel
  obtain ⟨e, he, rfl⟩ := Option.map_eq_some_iff.mp h
  rw [hnames e (List.mem_of_find?_eq_some he)]
  simpa using List.find?_some he

/-- A field that writes a cell is the cell itself or a pair of which it is a side. -/
theorem eq_or_isPair_of_mem_cells {f g : FieldId} (h : f ∈ g.cells) : f = g ∨ g.isPair = true := by
  cases hpair : g.isPair with
  | true => exact .inr rfl
  | false =>
    rw [cells_of_isPair hpair] at h
    exact .inl (List.mem_singleton.mp h)

/-- A pair stands among the pairs. -/
theorem exists_mem_pairs {p : FieldId} (h : p.isPair = true) :
    ∃ x ∈ pairs, x.1 = p ∧ p.cells = [x.2.1, x.2.2] := by
  obtain ⟨⟨source, destination⟩, hmembers⟩ := Option.isSome_iff_exists.mp h
  refine ⟨(p, source, destination), mem_pairs_of_members? hmembers, rfl, ?_⟩
  rw [cells, hmembers]

/-- A field is a side of one pair only. -/
theorem pair_unique {f p q : FieldId} (hp : p.isPair = true) (hq : q.isPair = true)
    (hfp : f ∈ p.cells) (hfq : f ∈ q.cells) : p = q := by
  have hdisjoint : ∀ x ∈ pairs, ∀ y ∈ pairs,
      (x.2.1 ∈ [y.2.1, y.2.2] ∨ x.2.2 ∈ [y.2.1, y.2.2]) → x.1 = y.1 := by decide
  obtain ⟨x, hx, rfl, hxcells⟩ := exists_mem_pairs hp
  obtain ⟨y, hy, rfl, hycells⟩ := exists_mem_pairs hq
  rw [hxcells] at hfp
  rw [hycells] at hfq
  refine hdisjoint x hx y hy ?_
  rcases List.mem_pair.mp hfp with rfl | rfl
  · exact .inl hfq
  · exact .inr hfq

/-- The name of a pair stands behind that of a side if the side is one of four, else in front of
it. -/
theorem name_lt_of_mem_cells {f p : FieldId} (hp : p.isPair = true) (hf : f ∈ p.cells) :
    if f ∈ frontSides then f.name < p.name else p.name < f.name := by
  have hnames : ∀ x ∈ pairs, ∀ f ∈ [x.2.1, x.2.2],
      if f ∈ frontSides then f.name < x.1.name else x.1.name < f.name := by decide +kernel
  obtain ⟨x, hx, rfl, hcells⟩ := exists_mem_pairs hp
  exact hnames x hx f (hcells ▸ hf)

end FieldId

namespace Record

variable {r s : Record} {line : String} {ms : List (String × Json)}

/-- The assignment that a member of a line stands for. -/
def assignment? (m : String × Json) : Option (FieldId × Value) :=
  (FieldId.ofName? m.1).bind fun f => (f.reading? m.2).map (f, ·)

/-- The value that the members of a line give to a field by its name. If the name is repeated, the
last member counts. -/
def given? (ms : List (String × Json)) (f : FieldId) : Option Value :=
  (Json.lastNamed? f.name ms).bind f.reading?

/-- A member that is added makes the assignment that it stands for; only null stands for none. -/
theorem addMember_spec (ha : r.allocated = true) {m : String × Json}
    (h : r.addMember m.1 m.2 = .ok s) :
    s.allocated = true ∧ s.cells = r.cells.storeAll (assignment? m).toList ∧
      (m.2 ≠ .null → (assignment? m).isSome = true) := by
  rcases addMember_cases h with ⟨hnull, rfl⟩ | ⟨-, field, type, v, hname, htype, hv, hset⟩
  · have hnone : assignment? m = none := by
      refine Option.bind_eq_none_iff.mpr fun f _ => ?_
      rw [hnull, FieldId.reading?_null, Option.map_none]
    exact ⟨ha, by rw [hnone]; rfl, fun hne => absurd hnull hne⟩
  · have hreading : field.reading? m.2 = some v := by
      rw [FieldId.reading?, htype, Option.bind_some, hv]
      rfl
    have hsome : assignment? m = some (field, v) := by
      rw [assignment?, hname, Option.bind_some, hreading, Option.map_some]
    obtain ⟨-, hs, hcells⟩ := set_spec hset
    exact ⟨hs, by rw [hsome, hcells]; rfl, fun _ => by rw [hsome]; rfl⟩

/-- Members that are added make their assignments in turn. -/
theorem addMembers_spec (ha : r.allocated = true) (h : r.addMembers ms = .ok s) :
    s.allocated = true ∧ s.cells = r.cells.storeAll (ms.filterMap assignment?) ∧
      ∀ m ∈ ms, m.2 ≠ .null → (assignment? m).isSome = true := by
  induction ms generalizing r with
  | nil =>
    obtain rfl := Except.ok.inj h
    exact ⟨ha, rfl, fun m hm => absurd hm List.not_mem_nil⟩
  | cons m rest ih =>
    unfold addMembers at h
    split at h
    · next t hone =>
      obtain ⟨ht, hcells, hfirst⟩ := addMember_spec ha hone
      obtain ⟨hs, hall, hrest⟩ := ih ht h
      refine ⟨hs, ?_, fun n hn => (List.mem_cons.mp hn).elim (fun he => he ▸ hfirst) (hrest n)⟩
      rw [hall, hcells]
      cases hm : assignment? m with
      | none => rw [List.filterMap_cons_none hm]; rfl
      | some x => rw [List.filterMap_cons_some hm]; rfl
    · cases h

/-- A line that is read is an object, and its members are added to an empty record in ascending
order of their names, each with the value that is written last. -/
theorem exists_addMembers_of_ofLine (h : ofLine line = .ok r) :
    ∃ ms sorted, Json.writtenMembers? line = some ms ∧ Assoc.Ascending sorted ∧
      (∀ name, Assoc.lookup name sorted = Json.lastNamed? name ms) ∧
      empty.addMembers sorted = .ok r := by
  unfold ofLine at h
  split at h
  · next j hread =>
    unfold Record.ofJson at h
    split at h
    · next sorted =>
      obtain ⟨ms, hms, hascending, hlookup⟩ := Json.exists_writtenMembers? hread
      exact ⟨ms, sorted, hms, hascending, hlookup, h⟩
    · cases h
  · cases h

/-- A record that is read from a line has storage. -/
theorem allocated_of_ofLine (h : ofLine line = .ok r) : r.allocated = true := by
  obtain ⟨ms, sorted, -, -, -, hadd⟩ := exists_addMembers_of_ofLine h
  exact (addMembers_spec rfl hadd).1

/-- What the members of a line do to an empty record: a cell holds the value of the last name among
those of the given fields that write it, and each member whose last value is not null gives one. -/
structure Gives (ms : List (String × Json)) (r : Record) : Prop where
  /-- The record has storage. -/
  allocated : r.allocated = true
  /-- A name whose last value is not null is that of a field, which takes the value. -/
  named : ∀ name raw, Json.lastNamed? name ms = some raw → raw ≠ .null →
    ∃ f v, FieldId.ofName? name = some f ∧ f.name = name ∧ given? ms f = some v
  /-- A cell holds the value of a given field if the other given fields that write it have names in
  front of that of the field. -/
  lookup_of_last : ∀ f g v, given? ms g = some v → f ∈ g.cells →
    (∀ p w, given? ms p = some w → f ∈ p.cells → p ≠ g → p.name < g.name) →
    Assoc.lookup f r.cells = some v
  /-- A cell that no given field writes is empty. -/
  lookup_of_none : ∀ f, (∀ g, f ∈ g.cells → given? ms g = none) → Assoc.lookup f r.cells = none

/-- An assignment that is made of a member gives its value to the field that is named. -/
theorem given?_of_assignment? {sorted : List (String × Json)}
    (hlookup : ∀ name, Assoc.lookup name sorted = Json.lastNamed? name ms)
    (hascending : Assoc.Ascending sorted) {m : String × Json} (hm : m ∈ sorted) {f : FieldId}
    {v : Value} (h : assignment? m = some (f, v)) :
    FieldId.ofName? m.1 = some f ∧ f.name = m.1 ∧ given? ms f = some v := by
  obtain ⟨g, hg, hmap⟩ := Option.bind_eq_some_iff.mp h
  obtain ⟨w, hw, heq⟩ := Option.map_eq_some_iff.mp hmap
  obtain ⟨rfl, rfl⟩ := Prod.mk.inj heq
  have hname := FieldId.name_of_ofName? hg
  have hlast : Json.lastNamed? g.name ms = some m.2 := by
    rw [← hlookup, hname]
    exact (hascending.mem_iff String.lt_irrefl).mp hm
  exact ⟨hg, hname, by rw [given?, hlast, Option.bind_some, hw]⟩

/-- A line that is read does to the record what its members give. -/
theorem gives_of_ofLine (h : ofLine line = .ok r) :
    ∃ ms, Json.writtenMembers? line = some ms ∧ Gives ms r := by
  obtain ⟨ms, sorted, hms, hascending, hlookup, hadd⟩ := exists_addMembers_of_ofLine h
  obtain ⟨hallocated, hcells, hsome⟩ := addMembers_spec rfl hadd
  have hheld : ∀ f, Assoc.lookup f r.cells =
      (Cells.written f (sorted.filterMap assignment?)).getLast? := by
    intro f
    rw [hcells, Cells.lookup_storeAll]
    exact Option.or_none
  refine ⟨ms, hms, hallocated, fun name raw hlast hnull => ?_, fun f g v hg hf hothers => ?_,
    fun f hnone => ?_⟩
  · have hmem : (name, raw) ∈ sorted := Assoc.mem_of_lookup ((hlookup name).trans hlast)
    obtain ⟨⟨f, v⟩, hassign⟩ := Option.isSome_iff_exists.mp (hsome _ hmem hnull)
    exact ⟨f, v, given?_of_assignment? hlookup hascending hmem hassign⟩
  · -- The member of the field makes the last of the assignments that write the cell.
    obtain ⟨raw, hlast, hreading⟩ := Option.bind_eq_some_iff.mp hg
    have hmem : (g.name, raw) ∈ sorted := Assoc.mem_of_lookup ((hlookup g.name).trans hlast)
    have hassign : assignment? (g.name, raw) = some (g, v) := by
      rw [assignment?, FieldId.ofName?_name (FieldId.isSome_of_reading? hreading),
        Option.bind_some, hreading, Option.map_some]
    rw [hheld, Cells.written, List.filterMap_filterMap]
    refine hascending.getLast?_filterMap hmem (by rw [hassign, Option.bind_some, if_pos hf])
      fun m hm hbehind => ?_
    rw [Option.bind_eq_none_iff]
    rintro ⟨p, w⟩ hp
    obtain ⟨-, hname, hgiven⟩ := given?_of_assignment? hlookup hascending hm hp
    rw [← hname] at hbehind
    refine if_neg fun hfp => String.lt_asymm hbehind (hothers p w hgiven hfp ?_)
    rintro rfl
    exact String.lt_irrefl _ hbehind
  · have hnothing : Cells.written f (sorted.filterMap assignment?) = [] := by
      rw [Cells.written, List.filterMap_eq_nil_iff]
      rintro ⟨g, v⟩ hmem
      obtain ⟨m, hm, hassign⟩ := List.mem_filterMap.mp hmem
      obtain ⟨-, -, hgiven⟩ := given?_of_assignment? hlookup hascending hm hassign
      refine if_neg fun hfg => ?_
      rw [hnone g hfg] at hgiven
      cases hgiven
    rw [hheld, hnothing]
    rfl

namespace Gives

/-- A field in the catalog that is no pair shows what its cell holds. -/
theorem get_of_lookup (h : Gives ms r) {f : FieldId} {v : Value} (hf : f.isPair = false)
    (htype : f.type?.isSome = true) (hv : Assoc.lookup f r.cells = some v) : r.get f = .ok v := by
  rw [get_eq h.allocated htype, cellOf_of_isPair hf, hv]
  rfl

/-- A field that is given shows its own value if no pair that is given behind it has it as a
side. -/
theorem get_of_given (h : Gives ms r) {f : FieldId} {v : Value} (hf : f.isPair = false)
    (hv : given? ms f = some v)
    (hpairs : f ∈ FieldId.frontSides → ∀ p, p.isPair = true → f ∈ p.cells → given? ms p = none) :
    r.get f = .ok v := by
  obtain ⟨raw, -, hreading⟩ := Option.bind_eq_some_iff.mp hv
  have hself : f ∈ f.cells := by
    rw [FieldId.cells_of_isPair hf]
    exact List.mem_singleton_self f
  refine h.get_of_lookup hf (FieldId.isSome_of_reading? hreading)
    (h.lookup_of_last f f v hv hself fun p w hp hfp hne => ?_)
  have hpair := (FieldId.eq_or_isPair_of_mem_cells hfp).resolve_left fun heq => hne heq.symm
  have hnames := FieldId.name_lt_of_mem_cells hpair hfp
  split at hnames
  · next hfront =>
    rw [hpairs hfront p hpair hfp] at hp
    cases hp
  · exact hnames

/-- A pair that is given shows its value in each of its sides that the line does not name or names
in front of the pair. -/
theorem get_of_pair (h : Gives ms r) {f p : FieldId} {v : Value} (hp : p.isPair = true)
    (hv : given? ms p = some v) (hf : f ∈ p.cells)
    (hside : given? ms f = none ∨ f ∈ FieldId.frontSides) : r.get f = .ok v := by
  obtain ⟨raw, -, hreading⟩ := Option.bind_eq_some_iff.mp hv
  obtain ⟨htype, hplain⟩ := FieldId.cells_types hf
  refine h.get_of_lookup hplain (htype ▸ FieldId.isSome_of_reading? hreading)
    (h.lookup_of_last f p v hv hf fun q w hq hfq hne => ?_)
  rcases FieldId.eq_or_isPair_of_mem_cells hfq with rfl | hpair
  · rcases hside with hnone | hfront
    · rw [hnone] at hq
      cases hq
    · have hnames := FieldId.name_lt_of_mem_cells hp hf
      rwa [if_pos hfront] at hnames
  · exact absurd (FieldId.pair_unique hpair hp hfq hf) hne

end Gives

/-- A line that is read is an object. Each of its members whose value is not null, the last one of
its name, is named after a field, which takes its value. A field that is no pair shows exactly the
value that the line gives to it by its name, unless its name stands in front of that of its pair and
the line names both; then it shows the value of the pair. A pair gives its value also to each of its
sides that the line does not name. Any other field is not set. -/
theorem get_of_ofLine (h : ofLine line = .ok r) :
    ∃ ms, Json.writtenMembers? line = some ms ∧
      (∀ name raw, Json.lastNamed? name ms = some raw → raw ≠ .null →
        ∃ f v, FieldId.ofName? name = some f ∧ f.name = name ∧ given? ms f = some v) ∧
      (∀ f v, f.isPair = false → given? ms f = some v →
        (f ∈ FieldId.frontSides → ∀ p, p.isPair = true → f ∈ p.cells → given? ms p = none) →
        r.get f = .ok v) ∧
      (∀ p v, p.isPair = true → given? ms p = some v → ∀ f ∈ p.cells,
        given? ms f = none ∨ f ∈ FieldId.frontSides → r.get f = .ok v) ∧
      ∀ f, f.type?.isSome = true → f.isPair = false → given? ms f = none →
        (∀ p, p.isPair = true → f ∈ p.cells → given? ms p = none) →
        r.get f = .error (.notSet f) := by
  obtain ⟨ms, hms, hgives⟩ := gives_of_ofLine h
  refine ⟨ms, hms, hgives.named, fun f v hf hv hpairs => hgives.get_of_given hf hv hpairs,
    fun p v hp hv f hf hside => hgives.get_of_pair hp hv hf hside,
    fun f htype hf hnone hpairs => ?_⟩
  have hempty : Assoc.lookup f r.cells = none := by
    refine hgives.lookup_of_none f fun g hfg => ?_
    rcases FieldId.eq_or_isPair_of_mem_cells hfg with rfl | hpair
    · exact hnone
    · exact hpairs g hpair hfg
  rw [get_eq hgives.allocated htype, cellOf_of_isPair hf, hempty]
  rfl

/-- A line that names pairs before and behind one of their sides, and one field twice. -/
def sidesLine : String :=
  "\x7b\"port\":80,\"srcport\":443,\"dstas\":7,\"as\":9,\"bytes\":null,\"bytes\":12\x7d"

/-- The sides that the line names keep their values, the others have those of the pairs. -/
theorem get_sidesLine : ∃ r, ofLine sidesLine = .ok r ∧
    r.get .srcPort = .ok (.u16 443) ∧ r.get .dstPort = .ok (.u16 80) ∧
      r.get .srcAs = .ok (.u32 9) ∧ r.get .dstAs = .ok (.u32 7) ∧
      r.get .bytes = .ok (.u64 12) ∧ r.get .packets = .error (.notSet .packets) := by
  have hline : ofLine sidesLine = .ok _ := ofLine_of_isSome (by decide +kernel)
  obtain ⟨ms, hms, -, hkept, hpair, hunset⟩ := get_of_ofLine hline
  have hvalues : (Json.writtenMembers? sidesLine).map (fun ms =>
      [.srcPort, .dstPort, .port, .srcAs, .dstAs, .autonomousSystem, .bytes, .packets].map
        (given? ms)) =
      some [some (.u16 443), none, some (.u16 80), none, some (.u32 7), some (.u32 9),
        some (.u64 12), none] := by
    decide +kernel
  rw [hms, Option.map_some, Option.some.injEq] at hvalues
  simp only [List.map_cons, List.map_nil, List.cons.injEq, and_true] at hvalues
  obtain ⟨hsrcPort, hdstPort, hport, hsrcAs, hdstAs, hsystem, hbytes, hpackets⟩ := hvalues
  refine ⟨_, hline, ?_, ?_, ?_, ?_, ?_, ?_⟩
  · exact hkept _ _ rfl hsrcPort fun h => absurd h (by decide)
  · exact hpair .port _ rfl hport _ (by decide) (.inl hdstPort)
  · exact hpair .autonomousSystem _ rfl hsystem _ (by decide) (.inl hsrcAs)
  · exact hkept _ _ rfl hdstAs fun h => absurd h (by decide)
  · exact hkept _ _ rfl hbytes fun h => absurd h (by decide)
  · refine hunset _ (by decide +kernel) rfl hpackets fun p hp hside => ?_
    obtain ⟨x, hx, rfl, hcells⟩ := FieldId.exists_mem_pairs hp
    rw [hcells] at hside
    exact absurd hside (by revert x; decide)

/-- A line that names the destination port and the pair that it is a side of. -/
def portsLine : String := "\x7b\"dstport\":53,\"port\":80\x7d"

/-- The line gives a value to the destination port by its name, and the port shows another one. -/
theorem get_portsLine : ∃ r ms, ofLine portsLine = .ok r ∧
    Json.writtenMembers? portsLine = some ms ∧ FieldId.dstPort.isPair = false ∧
      given? ms .dstPort = some (.u16 53) ∧ r.get .dstPort = .ok (.u16 80) := by
  have hline : ofLine portsLine = .ok _ := ofLine_of_isSome (by decide +kernel)
  obtain ⟨ms, hms, -⟩ := gives_of_ofLine hline
  have hgiven : (Json.writtenMembers? portsLine).bind (given? · .dstPort) = some (.u16 53) := by
    decide +kernel
  rw [hms] at hgiven
  exact ⟨_, ms, hline, hms, rfl, hgiven, by decide +kernel⟩

end Record

end FlowTally
