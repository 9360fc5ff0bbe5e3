import FlowTally.Proofs.Layout.Registration
import Mathlib.Logic.Relation

/-!
# The columns of a list of requests

A list that asks for each field at most once says what the columns are: each field on it has the
column it asks for, and each field that these need and that is not on it has its default column.
What carries this along the list is that it holds of the requests so far. A field that was given its
default column because another one needs it gets the column it asks for when its turn comes, and a
field that has what it asked for is left alone when another one needs it.
-/

namespace FlowTally

/-- A field is computed from another one, or from fields that are. -/
def FieldId.Needs : FieldId → FieldId → Prop := Relation.TransGen fun f g => g ∈ f.inputs

/-- The requirements of a field are what it needs. -/
theorem FieldId.mem_requirements_iff {f g : FieldId} : g ∈ f.requirements ↔ f.Needs g := by
  constructor
  · intro hg
    obtain ⟨input, hinput, hg⟩ := List.mem_flatMap.mp hg
    rcases List.mem_cons.mp hg with rfl | hg
    · exact .single hinput
    · exact .tail (.single hinput) hg
  · intro hg
    induction hg with
    | single hinput => exact List.mem_flatMap.mpr ⟨_, hinput, List.mem_cons_self⟩
    | tail _ hinput ih => exact FieldId.inputs_subset_requirements f _ ih _ hinput

/-- No pair field is needed by another field. -/
theorem FieldId.Needs.isPair_eq_false {f g : FieldId} (h : f.Needs g) : g.isPair = false := by
  have hinput : ∀ {f g : FieldId}, g ∈ f.inputs → g.isPair = false :=
    forall_inputs (P := fun _ g => g.isPair = false) (by decide)
  cases h with
  | single hg => exact hinput hg
  | tail _ hg => exact hinput hg

/-- A column is as asked: it has the aggregation that was asked for, or where that is `auto` the
one that the field has by itself, and the direction and lengths that were asked for. -/
structure Column.Answers (c : Column) (r : ColumnRequest) : Prop where
  /-- It is a column of the field. -/
  field_eq : c.field = r.field
  /-- Its type is that of the field. -/
  type_eq : r.field.type? = some c.type
  /-- Its aggregation is the one asked for, or the default. -/
  kind_eq : c.kind =
    if r.kind = .auto then r.field.autoKind c.type r.v4Bits r.v6Bits else r.kind
  /-- Its direction is the one asked for. -/
  sort_eq : c.sort = r.sort
  /-- Its length for addresses of 32 bits is the one asked for. -/
  v4Bits_eq : c.v4Bits = r.v4Bits
  /-- Its length for addresses of 128 bits is the one asked for. -/
  v6Bits_eq : c.v6Bits = r.v6Bits
  /-- Its merge follows from its aggregation and type. -/
  merge_eq : c.merge = .resolve c.kind c.type

/-- A request is answered by one column. -/
theorem Column.Answers.eq {c d : Column} {r : ColumnRequest} (hc : c.Answers r)
    (hd : d.Answers r) : c = d := by
  have htype : c.type = d.type := Option.some.inj (hc.type_eq.symm.trans hd.type_eq)
  have hkind : c.kind = d.kind := by rw [hc.kind_eq, hd.kind_eq, htype]
  have hmerge : c.merge = d.merge := by rw [hc.merge_eq, hd.merge_eq, hkind, htype]
  have hfield : c.field = d.field := hc.field_eq.trans hd.field_eq.symm
  have hsort : c.sort = d.sort := hc.sort_eq.trans hd.sort_eq.symm
  have hv4 : c.v4Bits = d.v4Bits := hc.v4Bits_eq.trans hd.v4Bits_eq.symm
  have hv6 : c.v6Bits = d.v6Bits := hc.v6Bits_eq.trans hd.v6Bits_eq.symm
  cases c
  cases d
  simp only [Column.mk.injEq]
  exact ⟨hfield, hkind, hsort, hv4, hv6, htype, hmerge⟩

/-- The column that is made for a request is as asked. -/
theorem Layout.answers_columnFor {r : ColumnRequest} {e : CatalogEntry}
    (he : r.field.info? = some e) : (columnFor e r).Answers r where
  field_eq := FieldId.field_of_info? he
  type_eq := by rw [FieldId.type?, he]; rfl
  kind_eq := by
    rw [columnFor, FieldId.field_of_info? he]
    cases r.kind with
    | auto => rfl
    | _ => rfl
  sort_eq := rfl
  v4Bits_eq := rfl
  v6Bits_eq := rfl
  merge_eq := rfl

/-- A column is as asked exactly if it is the one that is made for the request. -/
theorem Layout.answers_iff {r : ColumnRequest} {e : CatalogEntry} (he : r.field.info? = some e)
    (c : Column) : c.Answers r ↔ c = columnFor e r := by
  constructor
  · exact fun h => h.eq (answers_columnFor he)
  · rintro rfl
    exact answers_columnFor he

/-- A list of requests calls for a column: a request asks for it, or it is the default column of a
field that others need and no request asks for. -/
def Column.CalledFor (c : Column) (asked : List ColumnRequest) : Prop :=
  (∃ r ∈ asked, c.Answers r) ∨
    ∃ g, (∃ r ∈ asked, r.field.Needs g) ∧ (∀ r ∈ asked, r.field ≠ g) ∧
      c.Answers (Layout.defaultRequest g)

/-- What a list calls for does not depend on its order. -/
theorem Column.calledFor_congr {c : Column} {asked asked' : List ColumnRequest}
    (h : ∀ r, r ∈ asked ↔ r ∈ asked') : c.CalledFor asked ↔ c.CalledFor asked' := by
  simp only [CalledFor, h]

/-- What a list of requests calls for when a request for one more field is added. -/
theorem Column.calledFor_append {c : Column} {asked : List ColumnRequest} {r : ColumnRequest}
    (hnew : ∀ s ∈ asked, s.field ≠ r.field) :
    c.CalledFor (asked ++ [r]) ↔ c.Answers r ∨ (c.CalledFor asked ∧ c.field ≠ r.field) ∨
      ∃ g, r.field.Needs g ∧ g ≠ r.field ∧ (∀ s ∈ asked, s.field ≠ g) ∧
        c.Answers (Layout.defaultRequest g) := by
  have hmem : ∀ s, s ∈ asked ++ [r] ↔ s ∈ asked ∨ s = r := by
    intro s
    rw [List.mem_append, List.mem_singleton]
  have hunasked : ∀ g, (∀ s ∈ asked ++ [r], s.field ≠ g) ↔
      (∀ s ∈ asked, s.field ≠ g) ∧ g ≠ r.field := by
    intro g
    rw [List.forall_mem_append, List.forall_mem_singleton, ne_comm (a := g)]
  constructor
  · rintro (⟨s, hs, hc⟩ | ⟨g, ⟨s, hs, hneeds⟩, hall, hc⟩)
    · rcases (hmem s).mp hs with hs | rfl
      · exact .inr (.inl ⟨.inl ⟨s, hs, hc⟩, hc.field_eq ▸ hnew s hs⟩)
      · exact .inl hc
    · obtain ⟨hnone, hne⟩ := (hunasked g).mp hall
      rcases (hmem s).mp hs with hs | rfl
      · exact .inr (.inl ⟨.inr ⟨g, ⟨s, hs, hneeds⟩, hnone, hc⟩, hc.field_eq ▸ hne⟩)
      · exact .inr (.inr ⟨g, hneeds, hne, hnone, hc⟩)
  · rintro (hc | ⟨⟨s, hs, hc⟩ | ⟨g, ⟨s, hs, hneeds⟩, hnone, hc⟩, hfield⟩ |
      ⟨g, hneeds, hne, hnone, hc⟩)
    · exact .inl ⟨r, (hmem r).mpr (.inr rfl), hc⟩
    · exact .inl ⟨s, (hmem s).mpr (.inl hs), hc⟩
    · have hne : g ≠ r.field := fun heq => hfield (hc.field_eq.trans heq)
      exact .inr ⟨g, ⟨s, (hmem s).mpr (.inl hs), hneeds⟩, (hunasked g).mpr ⟨hnone, hne⟩, hc⟩
    · exact .inr ⟨g, ⟨r, (hmem r).mpr (.inr rfl), hneeds⟩, (hunasked g).mpr ⟨hnone, hne⟩, hc⟩

namespace Layout

variable {l l' : Layout}

/-- Columns after one was replaced or appended. -/
theorem mem_replaceOrAppend_iff {c d : Column} {cs : List Column}
    (h : (cs.map (·.field)).Nodup) :
    d ∈ replaceOrAppend c cs ↔ d = c ∨ d ∈ cs ∧ d.field ≠ c.field := by
  induction cs with
  | nil => simp [replaceOrAppend]
  | cons e rest ih =>
    obtain ⟨hnew, hrest⟩ := List.nodup_cons.mp h
    have hne : ∀ d ∈ rest, d.field ≠ e.field := by
      intro d hd heq
      exact hnew (List.mem_map.mpr ⟨d, hd, heq⟩)
    unfold replaceOrAppend
    split
    · next heq =>
      rw [List.mem_cons]
      refine or_congr_right ⟨fun hd => ⟨List.mem_cons_of_mem e hd, heq ▸ hne d hd⟩, ?_⟩
      rintro ⟨hd, hfield⟩
      rcases List.mem_cons.mp hd with rfl | hd
      · exact absurd heq hfield
      · exact hd
    · next hfield =>
      rw [List.mem_cons, ih hrest, List.mem_cons]
      constructor
      · rintro (rfl | rfl | ⟨hd, hd'⟩)
        · exact .inr ⟨.inl rfl, hfield⟩
        · exact .inl rfl
        · exact .inr ⟨.inr hd, hd'⟩
      · rintro (rfl | ⟨rfl | hd, hd'⟩)
        · exact .inr (.inl rfl)
        · exact .inl rfl
        · exact .inr (.inr ⟨hd, hd'⟩)

/-- Columns after the one of a field was taken out. -/
theorem mem_without_iff {f : FieldId} {d : Column} {cs : List Column} :
    d ∈ without f cs ↔ d ∈ cs ∧ d.field ≠ f := by
  rw [without, List.mem_filter, decide_eq_true_eq]

/-- A put column takes the place of the one its field had. -/
theorem mem_columns_put (h : l.fields.Nodup) {c d : Column} :
    d ∈ (l.put c).columns ↔ d = c ∨ d ∈ l.columns ∧ d.field ≠ c.field := by
  rw [fields_eq] at h
  obtain ⟨hkey, hvalue, -⟩ := List.nodup_append.mp h
  rw [columns, columns, key_put, value_put, List.mem_append, List.mem_append]
  split
  · rw [mem_replaceOrAppend_iff hkey, mem_without_iff, or_assoc, ← or_and_right]
  · rw [mem_replaceOrAppend_iff hvalue, mem_without_iff, or_left_comm, ← or_and_right]

/-- A field that has a column has one among the columns. -/
theorem mem_fields_iff_exists {f : FieldId} : f ∈ l.fields ↔ ∃ c ∈ l.columns, c.field = f :=
  List.mem_map

/-- A required field gets its default column where it has none. -/
theorem Proper.mem_columns_require (h : l.Proper) {f : FieldId} (hf : ∃ e, f.info? = some e)
    {c : Column} : c ∈ (l.require f).columns ↔
      c ∈ l.columns ∨ f ∉ l.fields ∧ c.Answers (defaultRequest f) := by
  unfold Layout.require
  split
  · next hcontains =>
    have hmem := contains_iff.mp hcontains
    exact ⟨.inl, fun hc => hc.resolve_right fun hnew => hnew.1 hmem⟩
  · next hcontains =>
    have hnew : f ∉ l.fields := fun hmem => hcontains (contains_iff.mpr hmem)
    obtain ⟨e, he⟩ := hf
    have hfield : (columnFor e (defaultRequest f)).field = f := FieldId.field_of_info? he
    have hold : c ∈ l.columns → c.field ≠ f := by
      rintro hc rfl
      exact hnew (mem_fields_iff_exists.mpr ⟨c, hc, rfl⟩)
    simp only [he]
    rw [mem_columns_put h.nodup, hfield, answers_iff (r := defaultRequest f) he]
    constructor
    · rintro (hc | ⟨hc, -⟩)
      · exact .inr ⟨hnew, hc⟩
      · exact .inl hc
    · rintro (hc | ⟨-, hc⟩)
      · exact .inr ⟨hc, hold hc⟩
      · exact .inl hc

/-- Required fields get their default columns where they have none. -/
theorem Proper.mem_columns_requireAll (h : l.Proper) {fs : List FieldId}
    (hfs : ∀ f ∈ fs, ∃ e, f.info? = some e) {c : Column} :
    c ∈ (fs.foldl Layout.require l).columns ↔
      c ∈ l.columns ∨ ∃ f ∈ fs, f ∉ l.fields ∧ c.Answers (defaultRequest f) := by
  induction fs generalizing l with
  | nil => simp
  | cons f rest ih =>
    obtain ⟨hproper, hmem⟩ := h.require (hfs f List.mem_cons_self)
    rw [List.foldl_cons, ih hproper fun g hg => hfs g (List.mem_cons_of_mem f hg),
      h.mem_columns_require (hfs f List.mem_cons_self)]
    constructor
    · rintro ((hc | ⟨hnew, hc⟩) | ⟨g, hg, hnew, hc⟩)
      · exact .inl hc
      · exact .inr ⟨f, List.mem_cons_self, hnew, hc⟩
      · exact .inr ⟨g, List.mem_cons_of_mem f hg, fun hold => hnew ((hmem g).mpr (.inr hold)), hc⟩
    · rintro (hc | ⟨g, hg, hnew, hc⟩)
      · exact .inl (.inl hc)
      · by_cases hgf : g = f
        · subst hgf
          exact .inl (.inr ⟨hnew, hc⟩)
        · have hrest : g ∈ rest := (List.mem_cons.mp hg).resolve_left hgf
          refine .inr ⟨g, hrest, fun hold => ?_, hc⟩
          exact hnew (((hmem g).mp hold).resolve_left hgf)

/-- What configuring a field does to the columns: its own is the one asked for, the others stay, and
what it needs has default columns where there were none. -/
theorem Proper.mem_columns_configure (h : l.Proper) {r : ColumnRequest}
    (hl : l.configure r = some l') {c : Column} :
    c ∈ l'.columns ↔ c.Answers r ∨ (c ∈ l.columns ∧ c.field ≠ r.field) ∨
      ∃ g, r.field.Needs g ∧ g ≠ r.field ∧ g ∉ l.fields ∧ c.Answers (defaultRequest g) := by
  obtain ⟨e, he, rfl⟩ := configure_eq_some hl
  have hfield : (columnFor e r).field = r.field := FieldId.field_of_info? he
  have hrequired : ∀ g ∈ r.field.requirements, ∃ e, g.info? = some e :=
    fun g hg => exists_info_of_mem_requirements hg
  rw [(h.put (fromCatalog_columnFor he)).mem_columns_requireAll hrequired,
    mem_columns_put h.nodup, hfield, ← answers_iff he, or_assoc]
  refine or_congr_right (or_congr_right (exists_congr fun g => ?_))
  rw [FieldId.mem_requirements_iff, mem_fields_put, hfield, not_or, and_assoc]

/-- What a list of requests, one for each of some fields, makes of a layout without columns. -/
structure Listed (asked : List ColumnRequest) (l : Layout) : Prop extends Asked asked l where
  /-- There is a column for each request. -/
  accepted : ∀ r ∈ asked, r.isAccepted = true
  /-- The columns are those that the requests call for. -/
  mem_columns_iff : ∀ c, c ∈ l.columns ↔ c.CalledFor asked

/-- No request calls for no column. -/
theorem Listed.empty : Layout.empty.Listed [] where
  toAsked := .empty
  accepted _ h := absurd h List.not_mem_nil
  mem_columns_iff c := by simp [columns, Layout.empty, Column.CalledFor]

namespace Listed

variable {asked : List ColumnRequest}

/-- There is a column for each request, and it is as asked. -/
theorem exists_column (h : l.Listed asked) {r : ColumnRequest} (hr : r ∈ asked) :
    ∃ c ∈ l.columns, c.Answers r := by
  have haccepted := h.accepted r hr
  unfold ColumnRequest.isAccepted at haccepted
  cases he : r.field.info? with
  | none => simp [he] at haccepted
  | some e =>
    have hanswers := answers_columnFor he
    exact ⟨columnFor e r, (h.mem_columns_iff _).mpr (.inl ⟨r, hr, hanswers⟩), hanswers⟩

/-- A field that is asked for has a column. -/
theorem mem_fields_of_asked (h : l.Listed asked) {r : ColumnRequest} (hr : r ∈ asked) :
    r.field ∈ l.fields := by
  obtain ⟨c, hc, hanswers⟩ := h.exists_column hr
  exact mem_fields_iff_exists.mpr ⟨c, hc, hanswers.field_eq⟩

/-- A field that has a column but was not asked for has its default column. -/
theorem calledFor_of_mem_fields (h : l.Listed asked) {g : FieldId} {c : Column} (hg : g ∈ l.fields)
    (hunasked : ∀ s ∈ asked, s.field ≠ g) (hc : c.Answers (defaultRequest g)) :
    c.CalledFor asked := by
  obtain ⟨d, hd, hfield⟩ := mem_fields_iff_exists.mp hg
  rcases (h.mem_columns_iff d).mp hd with ⟨s, hs, hanswers⟩ | ⟨g', hneeds, -, hanswers⟩
  · exact absurd (hanswers.field_eq.symm.trans hfield) (hunasked s hs)
  · obtain rfl : g' = g := hanswers.field_eq.symm.trans hfield
    exact .inr ⟨g', hneeds, hunasked, hc⟩

/-- A request for one more field. A field that it needs has a column already if it was asked for or
is needed by one that was, and otherwise gets its default column now. -/
theorem ask (h : l.Listed asked) {r : ColumnRequest} (hnew : ∀ s ∈ asked, s.field ≠ r.field)
    (hl : l.configure r = some l') : l'.Listed (asked ++ [r]) where
  toAsked := by
    have hasked := h.toAsked.ask r
    rwa [hl] at hasked
  accepted s hs := by
    rcases List.mem_append.mp hs with hs | hs
    · exact h.accepted s hs
    · obtain rfl := List.mem_singleton.mp hs
      rw [← l.isSome_configure, hl]
      rfl
  mem_columns_iff c := by
    rw [h.toProper.mem_columns_configure hl, h.mem_columns_iff, Column.calledFor_append hnew]
    constructor
    · rintro (hc | hc | ⟨g, hneeds, hne, hfresh, hc⟩)
      · exact .inl hc
      · exact .inr (.inl hc)
      · refine .inr (.inr ⟨g, hneeds, hne, fun s hs => ?_, hc⟩)
        rintro rfl
        exact hfresh (h.mem_fields_of_asked hs)
    · rintro (hc | hc | ⟨g, hneeds, hne, hunasked, hc⟩)
      · exact .inl hc
      · exact .inr (.inl hc)
      · by_cases hfresh : g ∈ l.fields
        · have hcalled := h.calledFor_of_mem_fields hfresh hunasked hc
          exact .inr (.inl ⟨hcalled, hc.field_eq ▸ hne⟩)
        · exact .inr (.inr ⟨g, hneeds, hne, hfresh, hc⟩)

end Listed

/-- Two columns of one field are one. -/
theorem Proper.eq_of_field_eq (h : l.Proper) {c d : Column} (hc : c ∈ l.columns)
    (hd : d ∈ l.columns) (hfield : c.field = d.field) : c = d :=
  List.inj_on_of_nodup_map h.nodup hc hd hfield

/-- The key columns are those that records are grouped by. -/
theorem Proper.mem_key_iff (h : l.Proper) {c : Column} :
    c ∈ l.key ↔ c ∈ l.columns ∧ c.kind = .key := by
  constructor
  · exact fun hc => ⟨List.mem_append_left _ hc, h.key_kind c hc⟩
  · rintro ⟨hc, hkind⟩
    exact (List.mem_append.mp hc).resolve_right fun hvalue => h.value_kind c hvalue hkind

/-- The value columns are those that records are not grouped by. -/
theorem Proper.mem_value_iff (h : l.Proper) {c : Column} :
    c ∈ l.value ↔ c ∈ l.columns ∧ c.kind ≠ .key := by
  constructor
  · exact fun hc => ⟨List.mem_append_right _ hc, h.value_kind c hc⟩
  · rintro ⟨hc, hkind⟩
    exact (List.mem_append.mp hc).resolve_left fun hkey => hkind (h.key_kind c hkey)

end Layout

/-- A sort column is about a column that stands where it says. -/
structure SortColumn.Marks (s : SortColumn) (l : Layout) (c : Column) : Prop where
  /-- The column stands in that part at that position. -/
  place_eq : (l.part s.part)[s.position]? = some c
  /-- It is a column of that field. -/
  field_eq : s.field = c.field
  /-- It has that direction. -/
  order_eq : s.order = c.sort
  /-- Its values are of that type. -/
  type_eq : s.type = c.type

namespace Layout

variable {l : Layout} {asked : List ColumnRequest}

/-- A layout is what a list of requests asks for, as a whole. -/
structure Realizes (l : Layout) (asked : List ColumnRequest) : Prop where
  /-- A field has at most one column. -/
  nodup : l.fields.Nodup
  /-- The fields with columns are those that are asked for and those that these need. -/
  mem_fields_iff : ∀ f, f ∈ l.fields ↔ ∃ r ∈ asked, r.field = f ∨ r.field.Needs f
  /-- A field that is asked for has one column, and it is as asked. -/
  exists_column : ∀ r ∈ asked, ∃ c ∈ l.columns, c.Answers r ∧
    ∀ d ∈ l.columns, d.field = r.field → d = c
  /-- The columns are those that the requests call for. -/
  mem_columns_iff : ∀ c, c ∈ l.columns ↔ c.CalledFor asked
  /-- Records are grouped by the columns that are keys. -/
  mem_key_iff : ∀ c, c ∈ l.key ↔ c ∈ l.columns ∧ c.kind = .key
  /-- The other columns are merged. -/
  mem_value_iff : ∀ c, c ∈ l.value ↔ c ∈ l.columns ∧ c.kind ≠ .key
  /-- The results are ordered by the column of the request that asks for an order. -/
  sortColumn_of_sorted : ∀ r ∈ asked, r.sort ≠ .none →
    ∃ s c, l.sortColumn = some s ∧ s.Marks l c ∧ c.Answers r
  /-- Nothing orders the results if no request asks for an order. -/
  sortColumn_of_unsorted : (∀ r ∈ asked, r.sort = .none) → l.sortColumn = none
  /-- Records count for both directions if a request asks for a pair field as a key. -/
  isBidirectional_iff : l.isBidirectional = true ↔
    ∃ r ∈ asked, r.field.isPair = true ∧ ∃ c : Column, c.Answers r ∧ c.kind = .key

/-- The fields with columns are those that are asked for and those that these need. -/
theorem Listed.mem_fields_iff (h : l.Listed asked) (f : FieldId) :
    f ∈ l.fields ↔ ∃ r ∈ asked, r.field = f ∨ r.field.Needs f := by
  constructor
  · intro hf
    obtain ⟨c, hc, rfl⟩ := mem_fields_iff_exists.mp hf
    rcases (h.mem_columns_iff c).mp hc with ⟨r, hr, hanswers⟩ | ⟨g, ⟨r, hr, hneeds⟩, -, hanswers⟩
    · exact ⟨r, hr, .inl hanswers.field_eq.symm⟩
    · exact ⟨r, hr, .inr (hanswers.field_eq ▸ hneeds)⟩
  · rintro ⟨r, hr, rfl | hneeds⟩
    · exact h.mem_fields_of_asked hr
    · have hready : l.Ready (r.field.depth + 1) := h.ready _
      apply hready.requirements_subset (h.mem_fields_of_asked hr) (Nat.lt_succ_self _)
      exact FieldId.mem_requirements_iff.mpr hneeds

/-- One of the requests asks for an order: the results are ordered by its column. -/
theorem Listed.sortColumn_of_sorted (h : l.Listed asked) {r : ColumnRequest} (hr : r ∈ asked)
    (hsort : r.sort ≠ .none) (hone : ∀ s ∈ asked, s.sort ≠ .none → s = r) :
    ∃ s c, l.sortColumn = some s ∧ s.Marks l c ∧ c.Answers r := by
  have hsorted : l.sortedBy = some (r.field, r.sort) := by
    rw [h.sortedBy_eq]
    have hmem : r ∈ asked.filter fun r => r.isAccepted && decide (r.sort ≠ .none) := by
      simp only [List.mem_filter, hr, h.accepted r hr, hsort, ne_eq, not_false_eq_true, decide_true,
        Bool.and_self, and_self]
    obtain ⟨s, hs⟩ : ∃ s, (asked.filter fun r =>
        r.isAccepted && decide (r.sort ≠ .none)).getLast? = some s :=
      Option.ne_none_iff_exists'.mp (mt List.getLast?_eq_none_iff.mp (List.ne_nil_of_mem hmem))
    obtain ⟨hasked, hsort'⟩ := List.mem_filter.mp (List.mem_of_getLast? hs)
    have hs' : s.sort ≠ .none := by simpa using (Bool.and_eq_true_iff.mp hsort').2
    obtain rfl := hone s hasked hs'
    rw [hs, Option.map_some]
  obtain ⟨d, hd, hanswers⟩ := h.exists_column hr
  obtain ⟨⟨part, position⟩, hplace⟩ := exists_locate (h.mem_fields_of_asked hr)
  obtain ⟨c, hc, hfield⟩ := column_of_locate hplace
  have hcolumn : c ∈ l.columns := mem_columns_of_part (List.mem_of_getElem? hc)
  obtain rfl : c = d := h.eq_of_field_eq hcolumn hd (hfield.trans hanswers.field_eq.symm)
  refine ⟨⟨r.field, part, position, r.sort, c.type⟩, c,
    sortColumn_eq hsorted hplace hanswers.type_eq, ?_, hanswers⟩
  exact ⟨hc, hanswers.field_eq.symm, hanswers.sort_eq.symm, rfl⟩

/-- No request asks for an order: nothing orders the results. -/
theorem Listed.sortColumn_of_unsorted (h : l.Listed asked) (hnone : ∀ r ∈ asked, r.sort = .none) :
    l.sortColumn = none := by
  have hfilter : (asked.filter fun r => r.isAccepted && decide (r.sort ≠ .none)) = [] := by
    refine List.filter_eq_nil_iff.mpr fun r hr => ?_
    simp only [hnone r hr, ne_eq, not_true_eq_false, decide_false, Bool.and_false,
      Bool.false_eq_true, not_false_eq_true]
  have hsorted : l.sortedBy = none := by rw [h.sortedBy_eq, hfilter]; rfl
  simp only [sortColumn, hsorted, Option.bind_eq_bind, Option.bind_none]

/-- Records count for both directions exactly if a request asks for a pair field as a key: the
fields that others need are no pairs. -/
theorem Listed.isBidirectional_iff (h : l.Listed asked) : l.isBidirectional = true ↔
    ∃ r ∈ asked, r.field.isPair = true ∧ ∃ c : Column, c.Answers r ∧ c.kind = .key := by
  rw [isBidirectional, List.any_eq_true]
  constructor
  · rintro ⟨c, hc, hpair⟩
    obtain ⟨hmem, hkind⟩ := h.mem_key_iff.mp hc
    rcases (h.mem_columns_iff c).mp hmem with ⟨r, hr, hanswers⟩ | ⟨g, ⟨s, -, hneeds⟩, -, hanswers⟩
    · exact ⟨r, hr, hanswers.field_eq ▸ hpair, c, hanswers, hkind⟩
    · have hfield : c.field = g := hanswers.field_eq
      rw [hfield, hneeds.isPair_eq_false] at hpair
      cases hpair
  · rintro ⟨r, hr, hpair, c, hanswers, hkind⟩
    have hmem : c ∈ l.columns := (h.mem_columns_iff c).mpr (.inl ⟨r, hr, hanswers⟩)
    exact ⟨c, h.mem_key_iff.mpr ⟨hmem, hkind⟩, hanswers.field_eq ▸ hpair⟩

/-- A list of requests of which at most one asks for an order makes the layout it asks for. -/
theorem Listed.realizes (h : l.Listed asked)
    (hone : ∀ r ∈ asked, ∀ s ∈ asked, r.sort ≠ .none → s.sort ≠ .none → s = r) :
    l.Realizes asked where
  nodup := h.nodup
  mem_fields_iff := h.mem_fields_iff
  exists_column r hr := by
    obtain ⟨c, hc, hanswers⟩ := h.exists_column hr
    refine ⟨c, hc, hanswers, fun d hd hfield => ?_⟩
    exact h.eq_of_field_eq hd hc (hfield.trans hanswers.field_eq.symm)
  mem_columns_iff := h.mem_columns_iff
  mem_key_iff _ := h.mem_key_iff
  mem_value_iff _ := h.mem_value_iff
  sortColumn_of_sorted r hr hsort :=
    h.sortColumn_of_sorted hr hsort fun s hs hs' => hone r hr s hs hsort hs'
  sortColumn_of_unsorted := h.sortColumn_of_unsorted
  isBidirectional_iff := h.isBidirectional_iff

/-- Lists with the same requests ask for the same columns, in whatever order. -/
theorem Realizes.perm {m : Layout} {asked' : List ColumnRequest} (hl : l.Realizes asked)
    (hm : m.Realizes asked') (h : ∀ r, r ∈ asked ↔ r ∈ asked') :
    l.key.Perm m.key ∧ l.value.Perm m.value := by
  have hcolumns : ∀ c, c ∈ l.columns ↔ c ∈ m.columns := by
    intro c
    rw [hl.mem_columns_iff, hm.mem_columns_iff, Column.calledFor_congr h]
  obtain ⟨hlkey, hlvalue, -⟩ := List.nodup_append.mp hl.nodup.of_map
  obtain ⟨hmkey, hmvalue, -⟩ := List.nodup_append.mp hm.nodup.of_map
  constructor
  · refine (List.perm_ext_iff_of_nodup hlkey hmkey).mpr fun c => ?_
    rw [hl.mem_key_iff, hm.mem_key_iff, hcolumns]
  · refine (List.perm_ext_iff_of_nodup hlvalue hmvalue).mpr fun c => ?_
    rw [hl.mem_value_iff, hm.mem_value_iff, hcolumns]

end Layout

end FlowTally
