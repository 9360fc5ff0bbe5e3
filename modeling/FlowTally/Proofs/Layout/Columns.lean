import FlowTally.Layout.Basic
import Mathlib.Data.List.Nodup

/-!
# The columns of a layout

Whatever is configured, a field has at most one column, a column is made from the
catalog entry of its field, and the fields that a derived field is computed from have
columns as well. Two layouts of one shape differ in nothing but the directions that
their columns were configured with.
-/

namespace FlowTally

/-- A field that is not derived is computed from no other. -/
theorem FieldId.inputs_eq_nil {f : FieldId} (hf : f ∉ derived) : f.inputs = [] := by
  simp only [derived, List.mem_cons, List.not_mem_nil, or_false, not_or] at hf
  simp only [inputs, hf, if_false]

/-- What holds of the inputs of all derived fields holds of all inputs. -/
theorem FieldId.forall_inputs {P : FieldId → FieldId → Prop}
    (h : ∀ f ∈ derived, ∀ g ∈ f.inputs, P f g) {f g : FieldId} (hg : g ∈ f.inputs) : P f g := by
  by_cases hf : f ∈ derived
  · exact h f hf g hg
  · rw [inputs_eq_nil hf] at hg
    cases hg

/-- A column is made from the catalog entry of its field. -/
structure Column.FromCatalog (c : Column) : Prop where
  /-- Its type is that of its field. -/
  type_eq : c.field.type? = some c.type
  /-- Its aggregation was chosen. -/
  kind_ne_auto : c.kind ≠ .auto
  /-- Its merge follows from its aggregation and type. -/
  merge_eq : c.merge = .resolve c.kind c.type

/-- A column without the direction it was configured with. -/
def Column.unsorted (c : Column) : Column := { c with sort := .none }

namespace Layout

/-- What putting a column keeps. -/
structure Proper (l : Layout) : Prop where
  /-- A field has at most one column. -/
  nodup : l.fields.Nodup
  /-- Each column is made from the catalog. -/
  fromCatalog : ∀ c ∈ l.columns, c.FromCatalog
  /-- Records are grouped by the key columns. -/
  key_kind : ∀ c ∈ l.key, c.kind = .key
  /-- Records are not grouped by the value columns. -/
  value_kind : ∀ c ∈ l.value, c.kind ≠ .key

/-- What holds of every layout that was configured. -/
structure Valid (l : Layout) : Prop extends Proper l where
  /-- The inputs of each field have columns. -/
  inputs_mem : ∀ f ∈ l.fields, ∀ g ∈ f.inputs, g ∈ l.fields

/-- A replaced or appended column is the new one or an old one. -/
theorem mem_of_mem_replaceOrAppend {c d : Column} {cs : List Column}
    (h : d ∈ replaceOrAppend c cs) : d = c ∨ d ∈ cs := by
  induction cs with
  | nil => exact .inl (List.mem_singleton.mp h)
  | cons e rest ih =>
    unfold replaceOrAppend at h
    split at h
    · rcases List.mem_cons.mp h with rfl | h
      · exact .inl rfl
      · exact .inr (List.mem_cons_of_mem e h)
    · rcases List.mem_cons.mp h with rfl | h
      · exact .inr List.mem_cons_self
      · exact (ih h).imp_right (List.mem_cons_of_mem e)

/-- Replacing keeps the fields, appending adds one behind them. -/
theorem map_field_replaceOrAppend (c : Column) (cs : List Column) :
    (replaceOrAppend c cs).map (·.field) =
      if c.field ∈ cs.map (·.field) then cs.map (·.field)
      else cs.map (·.field) ++ [c.field] := by
  induction cs with
  | nil => simp [replaceOrAppend]
  | cons e rest ih =>
    unfold replaceOrAppend
    by_cases he : e.field = c.field
    · simp [he]
    · rw [if_neg he, List.map_cons, ih]
      by_cases hc : c.field ∈ rest.map (·.field)
      · rw [if_pos hc, if_pos (by simp [hc]), List.map_cons]
      · rw [if_neg hc, if_neg (by simpa [Ne.symm he] using hc), List.map_cons, List.cons_append]

/-- Taking a field out leaves the other fields. -/
theorem map_field_without (f : FieldId) (cs : List Column) :
    (without f cs).map (·.field) = (cs.map (·.field)).filter fun g => decide (g ≠ f) := by
  rw [without, List.filter_map]
  rfl

/-- The fields of a replaced or appended column are the old ones and the new one. -/
theorem mem_map_field_replaceOrAppend {c : Column} {cs : List Column} {f : FieldId} :
    f ∈ (replaceOrAppend c cs).map (·.field) ↔ f = c.field ∨ f ∈ cs.map (·.field) := by
  rw [map_field_replaceOrAppend]
  split
  · next h =>
    constructor
    · exact .inr
    · rintro (rfl | hf)
      · exact h
      · exact hf
  · rw [List.mem_append, List.mem_singleton]
    exact or_comm

/-- Replacing or appending a column leaves no field twice. -/
theorem nodup_replaceOrAppend {c : Column} {cs : List Column} (h : (cs.map (·.field)).Nodup) :
    ((replaceOrAppend c cs).map (·.field)).Nodup := by
  rw [map_field_replaceOrAppend]
  split
  · exact h
  · next hc =>
    refine List.nodup_append.mpr ⟨h, List.nodup_singleton _, ?_⟩
    intro f hf g hg
    obtain rfl := List.mem_singleton.mp hg
    rintro rfl
    exact hc hf

/-- The fields of a layout are those of its two parts. -/
theorem fields_eq (l : Layout) : l.fields = l.key.map (·.field) ++ l.value.map (·.field) := by
  rw [fields, columns, List.map_append]

/-- The key columns behind a put. -/
theorem key_put (l : Layout) (c : Column) : (l.put c).key =
    if c.kind = .key then replaceOrAppend c l.key else without c.field l.key := by
  by_cases hkind : c.kind = .key <;> simp [put, hkind]

/-- The value columns behind a put. -/
theorem value_put (l : Layout) (c : Column) : (l.put c).value =
    if c.kind = .key then without c.field l.value else replaceOrAppend c l.value := by
  by_cases hkind : c.kind = .key <;> simp [put, hkind]

/-- A column that is put adds its field and takes none away. -/
theorem mem_fields_put {l : Layout} {c : Column} {f : FieldId} :
    f ∈ (l.put c).fields ↔ f = c.field ∨ f ∈ l.fields := by
  have hwithout : ∀ cs : List Column,
      f ∈ (without c.field cs).map (·.field) ↔ f ∈ cs.map (·.field) ∧ f ≠ c.field := by
    intro cs
    rw [map_field_without, List.mem_filter, decide_eq_true_eq]
  rw [fields_eq, fields_eq, key_put, value_put, List.mem_append, List.mem_append]
  by_cases hf : f = c.field
  · split <;> simp only [mem_map_field_replaceOrAppend, hf, true_or, or_true]
  · split <;> simp only [mem_map_field_replaceOrAppend, hwithout, hf, false_or, ne_eq,
      not_false_eq_true, and_true]

/-- A field keeps at most one column when a column is put. -/
theorem nodup_fields_put {l : Layout} (c : Column) (h : l.fields.Nodup) :
    (l.put c).fields.Nodup := by
  rw [fields_eq] at h
  obtain ⟨hkey, hvalue, hdisjoint⟩ := List.nodup_append.mp h
  rw [fields_eq, key_put, value_put]
  split
  · rw [map_field_without]
    refine List.nodup_append.mpr ⟨nodup_replaceOrAppend hkey, hvalue.filter _, ?_⟩
    intro f hf g hg heq
    obtain ⟨hg, hne⟩ := List.mem_filter.mp hg
    rcases mem_map_field_replaceOrAppend.mp hf with rfl | hf
    · exact of_decide_eq_true hne heq.symm
    · exact hdisjoint f hf g hg heq
  · rw [map_field_without]
    refine List.nodup_append.mpr ⟨hkey.filter _, nodup_replaceOrAppend hvalue, ?_⟩
    intro f hf g hg heq
    obtain ⟨hf, hne⟩ := List.mem_filter.mp hf
    rcases mem_map_field_replaceOrAppend.mp hg with rfl | hg
    · exact of_decide_eq_true hne heq
    · exact hdisjoint f hf g hg heq

/-- A key column behind a put is the one that was put or an old one. -/
theorem mem_key_of_put {l : Layout} {c d : Column} (h : d ∈ (l.put c).key) :
    (d = c ∧ c.kind = .key) ∨ d ∈ l.key := by
  rw [key_put] at h
  split at h
  · next hkind => exact (mem_of_mem_replaceOrAppend h).imp_left fun hd => ⟨hd, hkind⟩
  · exact .inr (List.mem_filter.mp h).1

/-- A value column behind a put is the one that was put or an old one. -/
theorem mem_value_of_put {l : Layout} {c d : Column} (h : d ∈ (l.put c).value) :
    (d = c ∧ c.kind ≠ .key) ∨ d ∈ l.value := by
  rw [value_put] at h
  split at h
  · exact .inr (List.mem_filter.mp h).1
  · next hkind => exact (mem_of_mem_replaceOrAppend h).imp_left fun hd => ⟨hd, hkind⟩

/-- A field has a column exactly if it stands among the fields. -/
theorem contains_iff {l : Layout} {f : FieldId} : l.contains f = true ↔ f ∈ l.fields := by
  have hposition : ∀ cs : List Column, (position? f cs).isSome = true ↔ f ∈ cs.map (·.field) := by
    intro cs
    simp [position?, List.findIdx?_isSome]
  rw [fields_eq, List.mem_append, ← hposition l.key, ← hposition l.value, contains, locate]
  cases position? f l.key <;> simp

/-- The columns of a part. -/
def part (l : Layout) : Part → List Column
  | .key => l.key
  | .value => l.value

/-- The columns of a part are columns. -/
theorem mem_columns_of_part {l : Layout} {part : Part} {c : Column} (hc : c ∈ l.part part) :
    c ∈ l.columns := by
  cases part with
  | key => exact List.mem_append_left _ hc
  | value => exact List.mem_append_right _ hc

/-- There is a column of the field at its position. -/
theorem column_of_position? {f : FieldId} {cs : List Column} {i : Nat}
    (h : position? f cs = some i) : ∃ c, cs[i]? = some c ∧ c.field = f := by
  obtain ⟨hlt, hfield, -⟩ := List.findIdx?_eq_some_iff_getElem.mp h
  exact ⟨cs[i], List.getElem?_eq_getElem hlt, of_decide_eq_true hfield⟩

/-- A field is located where a column of it stands. -/
theorem column_of_locate {l : Layout} {f : FieldId} {part : Part} {i : Nat}
    (h : l.locate f = some (part, i)) : ∃ c, (l.part part)[i]? = some c ∧ c.field = f := by
  unfold locate at h
  cases hkey : position? f l.key with
  | some j =>
    obtain ⟨rfl, rfl⟩ : Part.key = part ∧ j = i := by simpa [hkey] using h
    exact column_of_position? hkey
  | none =>
    obtain ⟨j, hj, heq⟩ := Option.map_eq_some_iff.mp (by simpa only [hkey] using h)
    obtain ⟨rfl, rfl⟩ := Prod.mk.inj heq
    exact column_of_position? hj

/-- A field is located by its position among the value columns only if it stands there. -/
theorem value_of_locate {l : Layout} {f : FieldId} {i : Nat}
    (h : l.locate f = some (.value, i)) : ∃ c, l.value[i]? = some c ∧ c.field = f :=
  column_of_locate h

/-- Every field with a column is located. -/
theorem exists_locate {l : Layout} {f : FieldId} (h : f ∈ l.fields) :
    ∃ place, l.locate f = some place :=
  Option.isSome_iff_exists.mp (contains_iff.mpr h)

/-- The column made for a request comes from the catalog. -/
theorem fromCatalog_columnFor {e : CatalogEntry} {r : ColumnRequest}
    (he : r.field.info? = some e) : (columnFor e r).FromCatalog := by
  have hfield : e.field = r.field := FieldId.field_of_info? he
  refine ⟨?_, ?_, rfl⟩
  · rw [columnFor, hfield, FieldId.type?, he]
    rfl
  · cases hkind : r.kind with
    | auto =>
      simp only [columnFor, hkind, FieldId.autoKind, FieldId.defaultKind]
      repeat' split
      all_goals simp
    | _ => simp [columnFor, hkind]

/-- Whatever a derived field needs is in the catalog. -/
theorem exists_info_of_mem_requirements {f g : FieldId} (hg : g ∈ f.requirements) :
    ∃ e, g.info? = some e := by
  have hall : ∀ f ∈ FieldId.derived, ∀ g ∈ f.requirements, g.info?.isSome = true := by decide
  by_cases hf : f ∈ FieldId.derived
  · exact Option.isSome_iff_exists.mp (hall f hf g hg)
  · rw [FieldId.requirements, FieldId.inputs_eq_nil hf] at hg
    cases hg

/-- There are no columns at the start. -/
theorem Valid.empty : Layout.empty.Valid where
  nodup := List.nodup_nil
  fromCatalog _ h := absurd h List.not_mem_nil
  key_kind _ h := absurd h List.not_mem_nil
  value_kind _ h := absurd h List.not_mem_nil
  inputs_mem _ h := absurd h List.not_mem_nil

/-- A column from the catalog can be put. -/
theorem Proper.put {l : Layout} {c : Column} (h : l.Proper) (hc : c.FromCatalog) :
    (l.put c).Proper where
  nodup := nodup_fields_put c h.nodup
  fromCatalog d hd := by
    rcases List.mem_append.mp hd with hd | hd
    · rcases mem_key_of_put hd with ⟨rfl, -⟩ | hd
      · exact hc
      · exact h.fromCatalog d (List.mem_append_left _ hd)
    · rcases mem_value_of_put hd with ⟨rfl, -⟩ | hd
      · exact hc
      · exact h.fromCatalog d (List.mem_append_right _ hd)
  key_kind d hd := by
    rcases mem_key_of_put hd with ⟨rfl, hkind⟩ | hd
    · exact hkind
    · exact h.key_kind d hd
  value_kind d hd := by
    rcases mem_value_of_put hd with ⟨rfl, hkind⟩ | hd
    · exact hkind
    · exact h.value_kind d hd

/-- A required field has a column afterwards, and no other field gets one. -/
theorem Proper.require {l : Layout} {f : FieldId} (h : l.Proper) (hf : ∃ e, f.info? = some e) :
    (l.require f).Proper ∧ ∀ g, g ∈ (l.require f).fields ↔ g = f ∨ g ∈ l.fields := by
  unfold Layout.require
  split
  · next hcontains =>
    refine ⟨h, fun g => ⟨.inr, ?_⟩⟩
    rintro (rfl | hg)
    · exact contains_iff.mp hcontains
    · exact hg
  · obtain ⟨e, he⟩ := hf
    have hfield : e.field = f := FieldId.field_of_info? he
    simp only [he]
    refine ⟨h.put (fromCatalog_columnFor (r := defaultRequest f) he), fun g => ?_⟩
    rw [mem_fields_put, columnFor, hfield]

/-- Required fields have columns afterwards, and no other fields get one. -/
theorem Proper.requireAll {l : Layout} {fs : List FieldId} (h : l.Proper)
    (hfs : ∀ f ∈ fs, ∃ e, f.info? = some e) :
    (fs.foldl Layout.require l).Proper ∧
      ∀ g, g ∈ (fs.foldl Layout.require l).fields ↔ g ∈ fs ∨ g ∈ l.fields := by
  induction fs generalizing l with
  | nil => exact ⟨h, by simp⟩
  | cons f rest ih =>
    obtain ⟨hproper, hmem⟩ := h.require (hfs f List.mem_cons_self)
    obtain ⟨hall, hmems⟩ := ih hproper fun g hg => hfs g (List.mem_cons_of_mem f hg)
    refine ⟨hall, fun g => ?_⟩
    rw [List.foldl_cons, hmems, hmem, List.mem_cons, or_left_comm, or_assoc]

/-- What configuring a field does, if it is not refused. -/
theorem configure_eq_some {l l' : Layout} {r : ColumnRequest} (h : l.configure r = some l') :
    ∃ e, r.field.info? = some e ∧
      l' = r.field.requirements.foldl Layout.require (l.put (columnFor e r)) := by
  unfold configure at h
  cases he : r.field.info? with
  | none => simp [he] at h
  | some e =>
    simp only [he] at h
    split at h
    · simp at h
    · exact ⟨e, rfl, (Option.some.inj h).symm⟩

/-- Configuring a field keeps a layout proper. -/
theorem Proper.configure {l l' : Layout} {r : ColumnRequest} (h : l.Proper)
    (hconfigure : l.configure r = some l') : l'.Proper := by
  obtain ⟨e, he, rfl⟩ := configure_eq_some hconfigure
  exact ((h.put (fromCatalog_columnFor he)).requireAll
    fun f hf => exists_info_of_mem_requirements hf).1

/-- The fields that have columns after a field was configured. -/
theorem Proper.mem_fields_configure {l l' : Layout} {r : ColumnRequest} (h : l.Proper)
    (hconfigure : l.configure r = some l') (f : FieldId) :
    f ∈ l'.fields ↔ f ∈ r.field.requirements ∨ f = r.field ∨ f ∈ l.fields := by
  obtain ⟨e, he, rfl⟩ := configure_eq_some hconfigure
  have hrequired : ∀ f ∈ r.field.requirements, ∃ e, f.info? = some e :=
    fun f hf => exists_info_of_mem_requirements hf
  rw [((h.put (fromCatalog_columnFor he)).requireAll hrequired).2, mem_fields_put, columnFor,
    FieldId.field_of_info? he]

/-- Where the inputs of some of the fields have columns, they have after a field was configured. -/
theorem Proper.closed_configure {l l' : Layout} {r : ColumnRequest} {p : FieldId → Prop}
    (h : l.Proper) (hconfigure : l.configure r = some l')
    (hclosed : ∀ f ∈ l.fields, p f → ∀ g ∈ f.inputs, g ∈ l.fields) :
    ∀ f ∈ l'.fields, p f → ∀ g ∈ f.inputs, g ∈ l'.fields := by
  intro f hf hp g hg
  have hfields := h.mem_fields_configure hconfigure
  refine (hfields g).mpr ?_
  rcases (hfields f).mp hf with hf | rfl | hf
  · exact .inl (FieldId.inputs_subset_requirements _ f hf g hg)
  · exact .inl (List.mem_flatMap.mpr ⟨g, hg, List.mem_cons_self⟩)
  · exact .inr (.inr (hclosed f hf hp g hg))

/-- Configuring a field keeps a layout valid. -/
theorem Valid.configure {l l' : Layout} {r : ColumnRequest} (h : l.Valid)
    (hconfigure : l.configure r = some l') : l'.Valid where
  toProper := h.toProper.configure hconfigure
  inputs_mem f hf := h.toProper.closed_configure hconfigure (p := fun _ => True)
    (fun f hf _ => h.inputs_mem f hf) f hf trivial

/-- A value column is found at its position. -/
theorem Valid.locate_value {l : Layout} {c : Column} {i : Nat} (h : l.Valid)
    (hc : l.value[i]? = some c) : l.locate c.field = some (.value, i) := by
  have hnodup := h.nodup
  rw [fields_eq] at hnodup
  obtain ⟨-, hvalue, hdisjoint⟩ := List.nodup_append.mp hnodup
  obtain ⟨hlt, rfl⟩ := List.getElem?_eq_some_iff.mp hc
  have hnone : position? l.value[i].field l.key = none := by
    refine List.findIdx?_eq_none_iff.mpr fun d hd => decide_eq_false ?_
    exact hdisjoint _ (List.mem_map_of_mem hd) _ (List.mem_map_of_mem (List.getElem_mem hlt))
  have hsome : position? l.value[i].field l.value = some i := by
    refine List.findIdx?_eq_some_iff_getElem.mpr ⟨hlt, by simp, fun j hj => ?_⟩
    have hne := List.pairwise_iff_getElem.mp hvalue j i (by simp; omega) (by simpa) hj
    simpa using hne
  simp [locate, hnone, hsome]

/-- What the shape of a layout keeps of a column tells all but its direction. -/
theorem unsorted_eq_of_slot {c d : Column} (hc : c.FromCatalog) (hd : d.FromCatalog)
    (h : (c.field, c.kind, c.v4Bits, c.v6Bits) = (d.field, d.kind, d.v4Bits, d.v6Bits)) :
    c.unsorted = d.unsorted := by
  obtain ⟨hfield, hkind, hv4, hv6⟩ : c.field = d.field ∧ c.kind = d.kind ∧
      c.v4Bits = d.v4Bits ∧ c.v6Bits = d.v6Bits := by simpa using h
  have htype : c.type = d.type := by
    have htypes := hc.type_eq
    rw [hfield, hd.type_eq] at htypes
    exact (Option.some.inj htypes).symm
  have hmerge : c.merge = d.merge := by rw [hc.merge_eq, hd.merge_eq, hkind, htype]
  simp only [Column.unsorted, hfield, hkind, hv4, hv6, htype, hmerge]

/-- Columns of one shape differ only in their directions. -/
theorem map_unsorted_eq {cs ds : List Column} (hcs : ∀ c ∈ cs, c.FromCatalog)
    (hds : ∀ d ∈ ds, d.FromCatalog)
    (h : cs.map (fun c => (c.field, c.kind, c.v4Bits, c.v6Bits)) =
      ds.map fun c => (c.field, c.kind, c.v4Bits, c.v6Bits)) :
    cs.map Column.unsorted = ds.map Column.unsorted := by
  induction cs generalizing ds with
  | nil =>
    obtain rfl : ds = [] := by simpa using h.symm
    rfl
  | cons c cs ih =>
    cases ds with
    | nil => simp at h
    | cons d ds =>
      obtain ⟨hslot, hrest⟩ := List.cons.inj h
      rw [List.map_cons, List.map_cons,
        unsorted_eq_of_slot (hcs c List.mem_cons_self) (hds d List.mem_cons_self) hslot,
        ih (fun e he => hcs e (List.mem_cons_of_mem c he))
          (fun e he => hds e (List.mem_cons_of_mem d he)) hrest]

/-- Valid layouts of one shape differ only in the directions of their columns. -/
theorem Valid.unsorted_of_shape {l m : Layout} (hl : l.Valid) (hm : m.Valid)
    (h : l.shape = m.shape) :
    l.key.map Column.unsorted = m.key.map Column.unsorted ∧
      l.value.map Column.unsorted = m.value.map Column.unsorted := by
  obtain ⟨hkey, hvalue⟩ := Prod.mk.inj h
  exact ⟨map_unsorted_eq (fun c hc => hl.fromCatalog c (List.mem_append_left _ hc))
      (fun c hc => hm.fromCatalog c (List.mem_append_left _ hc)) hkey,
    map_unsorted_eq (fun c hc => hl.fromCatalog c (List.mem_append_right _ hc))
      (fun c hc => hm.fromCatalog c (List.mem_append_right _ hc)) hvalue⟩

end Layout

end FlowTally
