import FlowTally.Proofs.Json.Finite
import FlowTally.Proofs.Record.Cells
import FlowTally.Proofs.Time.ReadBack
import FlowTally.Proofs.Value.LineText

/-!
# Records and their lines

No two fields have one name, so the object of a record has the member of each of its fields that
has a value. A record that was read from a line holds no infinite number, no NaN and no point in
time that is not settled: the readers of numbers and of points give none, and nothing else makes
one.
-/

namespace FlowTally

namespace FieldId

/-- Each name in the catalog is that of one field. -/
theorem ofName?_catalog : ∀ e ∈ catalog, ofName? e.name = some e.field := by
  decide +kernel

/-- The name of a field stands for it. -/
theorem ofName?_name {f : FieldId} (h : f.type?.isSome = true) : ofName? f.name = some f := by
  rw [type?, Option.isSome_map] at h
  obtain ⟨e, he⟩ := Option.isSome_iff_exists.mp h
  have hname : f.name = e.name := by rw [name, he]; rfl
  rw [hname, ofName?_catalog e (List.mem_of_find?_eq_some he), field_of_info? he]

/-- No two fields of the catalog have one name. -/
theorem name_inj {f g : FieldId} (hf : f.type?.isSome = true) (hg : g.type?.isSome = true)
    (h : f.name = g.name) : f = g :=
  Option.some.inj ((ofName?_name hf).symm.trans ((congrArg ofName? h).trans (ofName?_name hg)))

end FieldId

namespace FlowRecord

variable {R : Type} [FlowRecord R] {r : R} {fields : List FieldId}

/-- The member of a field that has a value. -/
def member? (r : R) (field : FieldId) : Option (String × Json) :=
  match FlowRecord.get r field with
  | .ok v => some (field.name, v.toJson)
  | .error _ => none

/-- Whether a field has a value or is not set. -/
def Readable (r : R) (field : FieldId) : Prop :=
  (∃ v, FlowRecord.get r field = .ok v) ∨ ∃ f, FlowRecord.get r field = .error (.notSet f)

/-- The members of readable fields are those of the fields that have a value. -/
theorem membersOf_eq (h : ∀ f ∈ fields, Readable r f) :
    membersOf r fields = .ok (fields.filterMap (member? r)) := by
  induction fields with
  | nil => rfl
  | cons f rest ih =>
    have hrest := ih fun g hg => h g (List.mem_cons_of_mem f hg)
    rcases h f List.mem_cons_self with ⟨v, hv⟩ | ⟨g, hg⟩
    · have hmember : member? r f = some (f.name, v.toJson) := by rw [member?, hv]
      rw [membersOf, hv, List.filterMap_cons_some hmember]
      simp only [hrest]
    · have hnone : member? r f = none := by rw [member?, hg]
      rw [membersOf, hg, List.filterMap_cons_none hnone]
      exact hrest

/-- The object of the given fields that have a value. -/
def object (r : R) (fields : List FieldId) : Json := .ofMembers (fields.filterMap (member? r))

/-- Readable fields make the object of those that have a value. -/
theorem toJson_eq (h : ∀ f ∈ fields, Readable r f) : toJson r fields = .ok (object r fields) := by
  rw [toJson, membersOf_eq h, object]

/-- The object of fields of the catalog has the member of each field that has a value. -/
theorem member?_object (hcatalog : ∀ f ∈ fields, f.type?.isSome = true) {f : FieldId}
    (hf : f ∈ fields) {v : Value} (hv : FlowRecord.get r f = .ok v) :
    (object r fields).member? f.name = some v.toJson := by
  obtain ⟨sorted, hsorted, hascending, hmembers, hnames⟩ :=
    Json.exists_ofMembers (fields.filterMap (member? r))
  have hmember : (f.name, v.toJson) ∈ fields.filterMap (member? r) :=
    List.mem_filterMap.mpr ⟨f, hf, by rw [member?, hv]⟩
  obtain ⟨j, hj⟩ := hnames _ hmember
  -- The member of that name is that of a field of that name, and there is one such field only.
  obtain ⟨g, hg, heq⟩ := List.mem_filterMap.mp (hmembers _ hj)
  rw [member?] at heq
  split at heq
  · next w hw =>
    obtain ⟨hname, rfl⟩ := Prod.mk.inj (Option.some.inj heq)
    obtain rfl := FieldId.name_inj (hcatalog g hg) (hcatalog f hf) hname
    obtain rfl := Except.ok.inj (hv.symm.trans hw)
    rw [object, hsorted, Json.member?]
    exact (hascending.mem_iff String.lt_irrefl).mp hj
  · cases heq

end FlowRecord

/-- A JSON value is finite if it is a number. -/
def Json.IsFinite (raw : Json) : Prop := ∀ n, raw = .num n → n.toBinary64.isFinite = true

/-- A point in time that a JSON value holds is settled. -/
theorem Value.isSettled_of_instantOf {raw : Json} {t : Instant} (h : instantOf raw = .ok t) :
    t.IsSettled := by
  cases raw with
  | num n =>
    simp only [instantOf] at h
    split at h
    · cases h
    · split at h
      · next hmillis =>
        obtain rfl := Except.ok.inj h
        exact Instant.isSettled_of_ofParts? hmillis
      · cases h
  | str s =>
    simp only [instantOf] at h
    split at h
    · next hread =>
      obtain rfl := Except.ok.inj h
      exact Instant.isSettled_of_read hread
    · cases h
  | _ => cases h

/-- A finite JSON value holds regular values only. -/
theorem Value.isRegular_of_ofJson {type : ValueType} {raw : Json} {v : Value}
    (h : ofJson type raw = .ok v) (hraw : raw.IsFinite) : v.IsRegular := by
  cases type with
  | f64 =>
    cases raw with
    | num n =>
      obtain rfl := Except.ok.inj h
      exact hraw n rfl
    | _ => cases h
  | timestamp =>
    simp only [ofJson, bind, Except.bind] at h
    split at h
    · cases h
    · next t hinstant =>
      obtain rfl := Except.ok.inj h
      exact isSettled_of_instantOf hinstant
  | addr | mac | blob =>
    simp only [ofJson, bind, Except.bind] at h
    split at h
    · cases h
    · split at h
      · obtain rfl := Except.ok.inj h
        trivial
      · cases h
  | _ =>
    simp only [ofJson, bind, Except.bind] at h
    split at h
    · cases h
    · obtain rfl := Except.ok.inj h
      trivial

namespace Record

variable {r s : Record}

/-- The values in the cells of a record are regular. -/
def HoldsRegular (r : Record) : Prop := ∀ f v, Assoc.lookup f r.cells = some v → v.IsRegular

/-- A record that holds regular values shows no others. -/
theorem HoldsRegular.of_get (h : r.HoldsRegular) {field : FieldId} {v : Value}
    (hv : r.get field = .ok v) : v.IsRegular := by
  unfold get at hv
  split at hv
  · cases hv
  · split at hv
    · cases hv
    · split at hv
      · next w hw =>
        obtain rfl := Except.ok.inj hv
        exact h _ _ hw
      · cases hv

/-- Writing a regular value keeps the values regular. -/
theorem HoldsRegular.set (h : r.HoldsRegular) {field : FieldId} {v : Value} (hv : v.IsRegular)
    (hset : r.set field v = .ok s) : s.HoldsRegular := by
  obtain ⟨-, -, hcells⟩ := Record.set_spec hset
  intro f w hw
  rw [hcells, Cells.lookup_store] at hw
  split at hw
  · rwa [← Option.some.inj hw]
  · exact h f w hw

/-- A member that is added is null and changes nothing, or it is named after a field and is written
there as a value of its type. -/
theorem addMember_cases {name : String} {raw : Json} (h : r.addMember name raw = .ok s) :
    (raw = .null ∧ s = r) ∨ raw ≠ .null ∧ ∃ field type v, FieldId.ofName? name = some field ∧
      field.type? = some type ∧ Value.ofJson type raw = .ok v ∧ r.set field v = .ok s := by
  unfold Record.addMember at h
  split at h
  · exact .inl ⟨rfl, (Except.ok.inj h).symm⟩
  · next hnull =>
    split at h
    · cases h
    · next field hname =>
      split at h
      · cases h
      · next type htype =>
        split at h
        · cases h
        · next v hv =>
          split at h
          · next t hset =>
            obtain rfl := Except.ok.inj h
            exact .inr ⟨hnull, field, type, v, hname, htype, hv, hset⟩
          · cases h

/-- Adding a finite member keeps the values regular. -/
theorem HoldsRegular.addMember (h : r.HoldsRegular) {name : String} {raw : Json}
    (hraw : raw.IsFinite) (hadd : r.addMember name raw = .ok s) : s.HoldsRegular := by
  rcases addMember_cases hadd with ⟨-, rfl⟩ | ⟨-, field, type, v, -, -, hv, hset⟩
  · exact h
  · exact h.set (Value.isRegular_of_ofJson hv hraw) hset

/-- Adding finite members keeps the values regular. -/
theorem HoldsRegular.addMembers (h : r.HoldsRegular) {ms : List (String × Json)}
    (hms : ∀ m ∈ ms, m.2.IsFinite) (hadd : r.addMembers ms = .ok s) : s.HoldsRegular := by
  induction ms generalizing r with
  | nil => rwa [← Except.ok.inj hadd]
  | cons m rest ih =>
    unfold Record.addMembers at hadd
    split at hadd
    · next t hone =>
      exact ih (h.addMember (hms m List.mem_cons_self) hone)
        (fun n hn => hms n (List.mem_cons_of_mem m hn)) hadd
    · cases hadd

/-- A line whose record is there is read as this record. -/
theorem ofLine_of_toOption {line : String} (h : (ofLine line).toOption = some r) :
    ofLine line = .ok r := by
  cases hline : ofLine line with
  | ok s =>
    rw [hline] at h
    rw [Option.some.inj h]
  | error e =>
    rw [hline] at h
    cases h

/-- A line that has a record is read as it. -/
theorem ofLine_of_isSome {line : String} (h : (ofLine line).toOption.isSome = true) :
    ofLine line = .ok ((ofLine line).toOption.getD empty) := by
  obtain ⟨s, hs⟩ := Option.isSome_iff_exists.mp h
  rw [hs, Option.getD_some, ofLine_of_toOption hs]

/-- A record that was read from a line holds regular values. -/
theorem holdsRegular_of_ofLine {line : String} (h : ofLine line = .ok r) : r.HoldsRegular := by
  have hempty : empty.HoldsRegular := fun f v hv => by cases hv
  unfold ofLine at h
  split at h
  · next j hread =>
    unfold Record.ofJson at h
    split at h
    · refine hempty.addMembers ?_ h
      rintro ⟨name, raw⟩ hm n rfl
      exact Json.isFinite_of_read?_obj hread hm
    · cases h
  · cases h

end Record

end FlowTally
