import FlowTally.Proofs.Layout.Columns
import FlowTally.Proofs.Aggregator.Operation

/-!
# Registration with kept answers

A layout can keep where its sort column stands and whether records count for both
directions, and find both out anew whenever a column is put. It can register the inputs of
a derived field one inside the other, each only where it has no column yet. A layout finds
both out when they are asked for and requires all fields that a field needs at once. The
two agree on every sequence of requests: what carries this is that the columns are closed
under inputs up to the depth of the field that is being registered.
-/

namespace FlowTally

namespace FieldId

/-- The length of the longest chain of inputs below a field. -/
def depth (f : FieldId) : Nat :=
  if f = duration then 1 else if f ∈ [bitRate, packetRate, packetSize] then 2 else 0

/-- Inputs lie below the fields computed from them. -/
theorem depth_lt {f g : FieldId} (h : g ∈ f.inputs) : g.depth < f.depth :=
  forall_inputs (P := fun f g => g.depth < f.depth) (by decide) h

/-- What a field needs are its inputs and what they need. -/
theorem requirements_eq (f : FieldId) :
    f.requirements = f.inputs.flatMap fun g => g :: g.requirements := by
  by_cases hf : f ∈ derived
  · have hall : ∀ f ∈ derived, f.requirements = f.inputs.flatMap fun g => g :: g.requirements := by
      decide
    exact hall f hf
  · rw [requirements, inputs_eq_nil hf, List.flatMap_nil, List.flatMap_nil]

end FieldId

/-- Whether there is a column for what is asked. -/
def ColumnRequest.isAccepted (r : ColumnRequest) : Bool :=
  match r.field.info? with
  | none => false
  | some entry => entry.aggregatable || decide (r.kind = .auto)

/-- A layout with two answers kept beside its columns. -/
structure KeptLayout where
  /-- The columns that records are grouped by. -/
  key : List Column
  /-- The columns that are merged. -/
  value : List Column
  /-- The column that results are ordered by. -/
  sort : Option SortColumn
  /-- Whether each record counts for both directions. -/
  bidirectional : Bool
deriving DecidableEq, Repr

/-- A layout with its answers. -/
def Layout.kept (l : Layout) : KeptLayout :=
  ⟨l.key, l.value, l.sortColumn, l.isBidirectional⟩

namespace KeptLayout

/-- No columns. -/
def empty : KeptLayout := ⟨[], [], none, false⟩

/-- The part and position of the column of a field. -/
def locate (k : KeptLayout) (field : FieldId) : Option (Part × Nat) :=
  match Layout.position? field k.key with
  | some i => some (.key, i)
  | none => (Layout.position? field k.value).map fun i => (.value, i)

/-- Whether a field has a column. -/
def contains (k : KeptLayout) (field : FieldId) : Bool := (k.locate field).isSome

/-- The layout with its answers found out anew. A sort column that has left is dropped. -/
def refresh (k : KeptLayout) : KeptLayout where
  key := k.key
  value := k.value
  sort := k.sort.bind fun s =>
    (k.locate s.field).map fun (part, position) => { s with part := part, position := position }
  bidirectional := k.key.any fun c => c.field.isPair

/-- Puts a column in the part of its kind and takes the field out of the other. A sort column
is noted at no place in particular before the answers are found out anew. -/
def put (k : KeptLayout) (column : Column) : KeptLayout :=
  let sort :=
    if column.sort = .none then k.sort
    else some ⟨column.field, .key, 0, column.sort, column.type⟩
  let k : KeptLayout :=
    if column.kind = .key then
      ⟨Layout.replaceOrAppend column k.key, Layout.without column.field k.value, sort,
        k.bidirectional⟩
    else
      ⟨Layout.without column.field k.key, Layout.replaceOrAppend column k.value, sort,
        k.bidirectional⟩
  k.refresh

/-- Gives a field the column that is asked for, then each input that has no column yet its
default column, and so on. -/
def register (k : KeptLayout) (r : ColumnRequest) : Except AggregateError KeptLayout :=
  match r.field.info? with
  | none => .error (.unknownField r.field)
  | some entry =>
    if !entry.aggregatable ∧ r.kind ≠ .auto then .error (.unknownField r.field)
    else
      r.field.inputs.attach.foldlM
        (fun k g => if k.contains g.1 then .ok k else register k (Layout.defaultRequest g.1))
        (k.put (Layout.columnFor entry r))
termination_by r.field.depth
decreasing_by exact FieldId.depth_lt g.2

/-- Registers a field that has no column yet. -/
def registerMissing (k : KeptLayout) (field : FieldId) : Except AggregateError KeptLayout :=
  if k.contains field then .ok k else k.register (Layout.defaultRequest field)

/-- The layout behind a request. One that is refused changes nothing. -/
def ask (k : KeptLayout) (r : ColumnRequest) : KeptLayout :=
  match k.register r with
  | .ok k => k
  | .error _ => k

/-- A registration is the column that is asked for, then the inputs one after the other. -/
theorem register_eq (k : KeptLayout) (r : ColumnRequest) :
    k.register r = match r.field.info? with
      | none => .error (.unknownField r.field)
      | some entry =>
        if !entry.aggregatable ∧ r.kind ≠ .auto then .error (.unknownField r.field)
        else r.field.inputs.foldlM registerMissing (k.put (Layout.columnFor entry r)) := by
  rw [register]
  have hinputs : ∀ k : KeptLayout, r.field.inputs.attach.foldlM
      (fun k g => if k.contains g.1 then .ok k else register k (Layout.defaultRequest g.1)) k =
      r.field.inputs.foldlM registerMissing k := by
    intro k
    rw [List.foldlM_subtype (g := registerMissing) (fun _ _ _ => rfl), List.unattach_attach]
  simp only [hinputs]

end KeptLayout

namespace Layout

/-- What registering a field of some depth relies on. -/
structure Ready (depth : Nat) (l : Layout) : Prop extends Proper l where
  /-- The field that results are ordered by has a column. -/
  sorted_mem : ∀ s, l.sortedBy = some s → s.1 ∈ l.fields
  /-- The inputs of fields of less depth have columns. -/
  closed : ∀ f ∈ l.fields, f.depth < depth → ∀ g ∈ f.inputs, g ∈ l.fields

variable {l l' : Layout} {depth : Nat}

/-- The column that asks for an order is the one that orders the results. -/
theorem sortedBy_put (l : Layout) (c : Column) :
    (l.put c).sortedBy = if c.sort = .none then l.sortedBy else some (c.field, c.sort) := by
  by_cases hkind : c.kind = .key <;> simp [put, hkind]

/-- A required field does not order the results. -/
theorem sortedBy_require (l : Layout) (f : FieldId) : (l.require f).sortedBy = l.sortedBy := by
  unfold require
  split
  · rfl
  · split
    · rw [sortedBy_put]
      rfl
    · rfl

/-- Required fields do not order the results. -/
theorem sortedBy_requireAll (l : Layout) (fs : List FieldId) :
    (fs.foldl require l).sortedBy = l.sortedBy := by
  induction fs generalizing l with
  | nil => rfl
  | cons f rest ih => rw [List.foldl_cons, ih, sortedBy_require]

/-- A field that asks for an order is the one that orders the results. -/
theorem sortedBy_configure {r : ColumnRequest} (h : l.configure r = some l') :
    l'.sortedBy = if r.sort = .none then l.sortedBy else some (r.field, r.sort) := by
  obtain ⟨e, he, rfl⟩ := configure_eq_some h
  rw [sortedBy_requireAll, sortedBy_put, columnFor, FieldId.field_of_info? he]

/-- Fields that have columns are not given others. -/
theorem requireAll_of_subset {fs : List FieldId} (h : ∀ f ∈ fs, f ∈ l.fields) :
    fs.foldl require l = l := by
  induction fs with
  | nil => rfl
  | cons f rest ih =>
    rw [List.foldl_cons, require, if_pos (contains_iff.mpr (h f List.mem_cons_self))]
    exact ih fun g hg => h g (List.mem_cons_of_mem f hg)

/-- What configuring a field does where it is not refused. -/
theorem configure_eq {r : ColumnRequest} {e : CatalogEntry} (he : r.field.info? = some e)
    (haccepted : ¬(!e.aggregatable ∧ r.kind ≠ .auto)) :
    l.configure r = some (r.field.requirements.foldl require (l.put (columnFor e r))) := by
  simp only [configure, he, if_neg haccepted]

/-- A request is accepted exactly if there is a column for it. -/
theorem isSome_configure (l : Layout) (r : ColumnRequest) :
    (l.configure r).isSome = r.isAccepted := by
  unfold configure ColumnRequest.isAccepted
  cases r.field.info? with
  | none => rfl
  | some e =>
    by_cases hkind : r.kind = .auto
    · simp [hkind]
    · cases hentry : e.aggregatable <;> simp [hkind, hentry]

/-- The fields of a layout are in the catalog. -/
theorem Proper.exists_type (h : l.Proper) {f : FieldId} (hf : f ∈ l.fields) :
    ∃ type, f.type? = some type := by
  obtain ⟨c, hc, rfl⟩ := List.mem_map.mp hf
  exact ⟨c.type, (h.fromCatalog c hc).type_eq⟩

/-- The column that results are ordered by, where it stands. -/
theorem sortColumn_eq {f : FieldId} {order : SortOrder} {part : Part} {position : Nat}
    {type : ValueType} (hsorted : l.sortedBy = some (f, order))
    (hplace : l.locate f = some (part, position)) (htype : f.type? = some type) :
    l.sortColumn = some ⟨f, part, position, order, type⟩ := by
  simp [sortColumn, hsorted, hplace, htype]

namespace Ready

/-- A valid layout is ready for fields of every depth. -/
theorem ofValid (h : l.Valid) (hsorted : ∀ s, l.sortedBy = some s → s.1 ∈ l.fields) :
    l.Ready depth where
  toProper := h.toProper
  sorted_mem := hsorted
  closed f hf _ := h.inputs_mem f hf

/-- Fields of less depth that have columns need nothing. -/
theorem requirements_subset (h : l.Ready depth) {f : FieldId} (hf : f ∈ l.fields)
    (hdepth : f.depth < depth) : ∀ g ∈ f.requirements, g ∈ l.fields := by
  intro g hg
  obtain ⟨input, hinput, hg⟩ := List.mem_flatMap.mp hg
  have hmem : input ∈ l.fields := h.closed f hf hdepth input hinput
  rcases List.mem_cons.mp hg with rfl | hg
  · exact hmem
  · exact h.closed input hmem ((FieldId.depth_lt hinput).trans hdepth) g hg

/-- A layout is ready for fields of less depth. -/
theorem mono {d : Nat} (h : l.Ready depth) (hd : d ≤ depth) : l.Ready d where
  toProper := h.toProper
  sorted_mem := h.sorted_mem
  closed f hf hlt := h.closed f hf (hlt.trans_le hd)

/-- The column of a field of that depth can be put. -/
theorem put {c : Column} (h : l.Ready depth) (hc : c.FromCatalog) (hdepth : depth ≤ c.field.depth) :
    (l.put c).Ready depth where
  toProper := h.toProper.put hc
  sorted_mem s hs := by
    rw [sortedBy_put] at hs
    split at hs
    · exact mem_fields_put.mpr (.inr (h.sorted_mem s hs))
    · obtain rfl := Option.some.inj hs
      exact mem_fields_put.mpr (.inl rfl)
  closed f hf hlt g hg := by
    rcases mem_fields_put.mp hf with rfl | hf
    · exact absurd hlt (not_lt.mpr hdepth)
    · exact mem_fields_put.mpr (.inr (h.closed f hf hlt g hg))

/-- A request leaves the layout ready. -/
theorem configure {r : ColumnRequest} (h : l.Ready depth) (hl : l.configure r = some l') :
    l'.Ready depth where
  toProper := h.toProper.configure hl
  sorted_mem s hs := by
    have hmem := h.toProper.mem_fields_configure hl
    rw [sortedBy_configure hl] at hs
    split at hs
    · exact (hmem _).mpr (.inr (.inr (h.sorted_mem s hs)))
    · obtain rfl := Option.some.inj hs
      exact (hmem _).mpr (.inr (.inl rfl))
  closed := h.toProper.closed_configure hl h.closed

/-- The answers that are found out anew when a column is put are those of the layout. -/
theorem kept_put {c : Column} (h : l.Ready depth) (hc : c.FromCatalog) :
    (l.put c).kept = l.kept.put c := by
  have hproper : (l.put c).Proper := h.toProper.put hc
  let noted : Option SortColumn :=
    if c.sort = .none then l.sortColumn else some ⟨c.field, .key, 0, c.sort, c.type⟩
  have hput : l.kept.put c =
      (KeptLayout.mk (l.put c).key (l.put c).value noted l.isBidirectional).refresh := by
    by_cases hkind : c.kind = .key <;> simp only [KeptLayout.put, Layout.put, hkind] <;> rfl
  have hsort : (l.put c).sortColumn = noted.bind fun s => ((l.put c).locate s.field).map
      fun (part, position) => { s with part := part, position := position } := by
    by_cases hasked : c.sort = .none
    · have hsame : (l.put c).sortedBy = l.sortedBy := by rw [sortedBy_put, if_pos hasked]
      cases hsorted : l.sortedBy with
      | none => simp [noted, hasked, sortColumn, hsame, hsorted]
      | some s =>
        have hmem : s.1 ∈ l.fields := h.sorted_mem s hsorted
        obtain ⟨type, htype⟩ := h.exists_type hmem
        obtain ⟨old, hold⟩ := exists_locate hmem
        obtain ⟨place, hplace⟩ := exists_locate (mem_fields_put.mpr (.inr hmem) : s.1 ∈ (l.put c).fields)
        rw [sortColumn_eq (hsame.trans hsorted) hplace htype]
        simp [noted, hasked, sortColumn_eq hsorted hold htype, hplace]
    · have hnew : (l.put c).sortedBy = some (c.field, c.sort) := by
        rw [sortedBy_put, if_neg hasked]
      obtain ⟨place, hplace⟩ := exists_locate (mem_fields_put.mpr (.inl rfl) : c.field ∈ (l.put c).fields)
      rw [sortColumn_eq hnew hplace hc.type_eq]
      simp [noted, hasked, hplace]
  rw [hput, kept, hsort]
  rfl

/-- Registering missing fields one inside the other requires all that they need. -/
theorem registerMissing_kept {fs : List FieldId} (h : l.Ready depth)
    (hfs : ∀ f ∈ fs, f.depth < depth) (hknown : ∀ f ∈ fs, ∃ e, f.info? = some e)
    (register : ∀ (l : Layout) (r : ColumnRequest), r.field.depth < depth →
      l.Ready r.field.depth → l.kept.register r =
        match l.configure r with
        | some l' => .ok l'.kept
        | none => .error (.unknownField r.field)) :
    fs.foldlM KeptLayout.registerMissing l.kept =
      .ok ((fs.flatMap fun f => f :: f.requirements).foldl require l).kept := by
  induction fs generalizing l with
  | nil => rfl
  | cons f rest ih =>
    have hdepth : f.depth < depth := hfs f List.mem_cons_self
    have hrest := fun m hm => ih (l := m) hm (fun g hg => hfs g (List.mem_cons_of_mem f hg))
      fun g hg => hknown g (List.mem_cons_of_mem f hg)
    rw [List.flatMap_cons, List.foldl_append, List.foldlM_cons]
    by_cases hcontains : l.contains f = true
    · have hmem : f ∈ l.fields := contains_iff.mp hcontains
      have hsubset : ∀ g ∈ f :: f.requirements, g ∈ l.fields := by
        intro g hg
        rcases List.mem_cons.mp hg with rfl | hg
        · exact hmem
        · exact h.requirements_subset hmem hdepth g hg
      have hdone : l.kept.registerMissing f = .ok l.kept := if_pos hcontains
      rw [requireAll_of_subset hsubset, hdone]
      exact hrest l h
    · obtain ⟨e, he⟩ := hknown f List.mem_cons_self
      have hconfigure : l.configure (defaultRequest f) =
          some ((f :: f.requirements).foldl require l) := by
        rw [List.foldl_cons, require, if_neg hcontains, he]
        exact configure_eq he (by simp [defaultRequest])
      have hmissing : l.kept.registerMissing f =
          .ok ((f :: f.requirements).foldl require l).kept := by
        have hregister := register l (defaultRequest f) hdepth (h.mono hdepth.le)
        rw [hconfigure] at hregister
        exact (if_neg hcontains).trans hregister
      rw [hmissing]
      exact hrest _ (h.configure hconfigure)

/-- Registering a field is configuring it, with the answers kept. -/
theorem register_kept {r : ColumnRequest} (h : l.Ready r.field.depth) :
    l.kept.register r =
      match l.configure r with
      | some l' => .ok l'.kept
      | none => .error (.unknownField r.field) := by
  induction hdepth : r.field.depth using Nat.strongRecOn generalizing l r with
  | ind depth ih =>
    subst hdepth
    rw [KeptLayout.register_eq, Layout.configure]
    cases he : r.field.info? with
    | none => rfl
    | some e =>
      have hfield : e.field = r.field := FieldId.field_of_info? he
      by_cases hrefused : !e.aggregatable ∧ r.kind ≠ .auto
      · simp only [if_pos hrefused]
      · have hcolumn : (columnFor e r).FromCatalog := fromCatalog_columnFor he
        have hput : (l.put (columnFor e r)).Ready r.field.depth :=
          h.put hcolumn (by rw [columnFor, hfield])
        simp only [if_neg hrefused]
        rw [← h.kept_put hcolumn, FieldId.requirements_eq]
        refine hput.registerMissing_kept (fun f hf => FieldId.depth_lt hf)
          (fun f hf => exists_info_of_mem_requirements
            (List.mem_flatMap.mpr ⟨f, hf, List.mem_cons_self⟩)) ?_
        exact fun l r hlt hl => ih _ hlt hl rfl

end Ready

/-- What a run of requests leaves: the sort column is the latest that was asked for. -/
structure Asked (asked : List ColumnRequest) (l : Layout) : Prop extends Valid l where
  /-- The results are ordered as the latest accepted request for an order says. -/
  sortedBy_eq : l.sortedBy =
    (asked.filter fun r => r.isAccepted && decide (r.sort ≠ .none)).getLast?.map
      fun r => (r.field, r.sort)
  /-- The field that results are ordered by has a column. -/
  sorted_mem : ∀ s, l.sortedBy = some s → s.1 ∈ l.fields
  /-- The layout with answers kept has come the same way. -/
  kept_eq : l.kept = asked.foldl KeptLayout.ask .empty

/-- Nothing was asked at the start. -/
theorem Asked.empty : Layout.empty.Asked [] where
  toValid := Valid.empty
  sortedBy_eq := rfl
  sorted_mem _ h := nomatch h
  kept_eq := rfl

namespace Asked

variable {asked : List ColumnRequest}

/-- The layout is ready for any field. -/
theorem ready (h : l.Asked asked) (depth : Nat) : l.Ready depth :=
  .ofValid h.toValid h.sorted_mem

/-- One more request. -/
theorem ask (h : l.Asked asked) (r : ColumnRequest) :
    ((l.configure r).getD l).Asked (asked ++ [r]) := by
  have hregister := (h.ready r.field.depth).register_kept
  have hkept : (asked ++ [r]).foldl KeptLayout.ask .empty = l.kept.ask r := by
    rw [List.foldl_append, ← h.kept_eq]
    rfl
  have haccepted := l.isSome_configure r
  cases hl : l.configure r with
  | none =>
    rw [hl] at hregister haccepted
    have hrefused : r.isAccepted = false := haccepted.symm
    refine ⟨h.toValid, ?_, h.sorted_mem, ?_⟩
    · rw [Option.getD_none, h.sortedBy_eq, List.filter_append]
      simp [hrefused]
    · rw [Option.getD_none, hkept, KeptLayout.ask, hregister]
  | some l' =>
    rw [hl] at hregister haccepted
    have hr : r.isAccepted = true := haccepted.symm
    refine ⟨h.toValid.configure hl, ?_, ((h.ready r.field.depth).configure hl).sorted_mem, ?_⟩
    · rw [Option.getD_some, sortedBy_configure hl, h.sortedBy_eq, List.filter_append]
      by_cases hsort : r.sort = .none
      · simp [hsort]
      · simp [hr, hsort]
    · rw [Option.getD_some, hkept, KeptLayout.ask, hregister]

end Asked

end Layout

/-- The requests behind the last clearing, after one more operation. -/
def Operation.note (asked : List ColumnRequest) : Operation → List ColumnRequest
  | .configure r => asked ++ [r]
  | .clear => []
  | _ => asked

/-- The requests behind the last clearing. -/
def Operation.requests (ops : List Operation) : List ColumnRequest := ops.foldl note []

namespace Aggregator

/-- The layout behind a request is the new one, or the old one if the request is refused. -/
theorem layout_configure (a : Aggregator) (r : ColumnRequest) :
    (a.configure r).1.layout = (a.layout.configure r).getD a.layout := by
  unfold configure
  cases a.layout.configure r <;> rfl

/-- A request is answered as the layout with answers kept answers it. -/
theorem configure_answer {a : Aggregator} {r : ColumnRequest}
    (h : a.layout.Ready r.field.depth) :
    (a.configure r).2 = (a.layout.kept.register r).map fun _ => () := by
  rw [h.register_kept, configure]
  cases a.layout.configure r <;> rfl

/-- Every operation leaves the layout to the requests. -/
theorem asked_step {a : Aggregator} {asked : List ColumnRequest} (h : a.layout.Asked asked)
    (op : Operation) : (a.step op).layout.Asked (op.note asked) := by
  cases op with
  | configure r =>
    rw [step, layout_configure]
    exact h.ask r
  | setPairOnce on => exact h
  | setOrdering ordering => exact h
  | write r =>
    rw [step, (a.write_keeps r).1]
    exact h
  | firstPosition => exact h
  | nextPosition c => exact h
  | materialize c out =>
    rw [step, (a.readsTo_materialize c out).keeps.1]
    exact h
  | report format limit =>
    rw [step, (a.readsTo_report format limit).keeps.1]
    exact h
  | clear => exact .empty

/-- The layout of an aggregation comes from the requests behind the last clearing. -/
theorem asked_run {a : Aggregator} {asked : List ColumnRequest} (h : a.layout.Asked asked)
    (ops : List Operation) : (a.run ops).layout.Asked (ops.foldl Operation.note asked) := by
  induction ops generalizing a asked with
  | nil => exact h
  | cons op rest ih => exact ih (asked_step h op)

/-- Whatever is called in whatever order, the layout is the one that the requests behind the last
clearing give when its answers are kept beside the columns and inputs are registered one inside the
other, and it is closed: each field has one column, made from the catalog, in the part of its
kind; the inputs of each field have columns; records count for both directions exactly if a pair
field is grouped by; and the results are ordered by the latest accepted request for an order, at
the place where its field stands. -/
theorem kept_run (shards : Nat) (spread : String → Nat) (ops : List Operation) :
    let a := (new shards spread).run ops
    let asked := Operation.requests ops
    let k := asked.foldl KeptLayout.ask .empty
    let columns := k.key ++ k.value
    let fields := columns.map (·.field)
    a.layout.kept = k ∧
    (∀ r, (a.configure r).2 = (k.register r).map fun _ => ()) ∧
    (∀ r, (k.register r).isOk = r.isAccepted) ∧
    fields.Nodup ∧
    (∀ c ∈ columns, c.field.type? = some c.type ∧ c.kind ≠ .auto ∧
      (c.kind = .key ↔ c ∈ k.key) ∧ c.merge = .resolve c.kind c.type) ∧
    (∀ f ∈ fields, ∀ g ∈ f.inputs, g ∈ fields) ∧
    (k.bidirectional = true ↔ ∃ c ∈ k.key, c.field.isPair = true) ∧
    match (asked.filter fun r => r.isAccepted && decide (r.sort ≠ .none)).getLast? with
    | none => k.sort = none
    | some r => ∃ part position type, k.locate r.field = some (part, position) ∧
        r.field.type? = some type ∧ k.sort = some ⟨r.field, part, position, r.sort, type⟩ := by
  intro a asked k columns fields
  have h : a.layout.Asked asked := asked_run (a := new shards spread) .empty ops
  have hk : k = a.layout.kept := h.kept_eq.symm
  refine ⟨hk.symm, ?_, ?_, ?_⟩
  · intro r
    rw [hk]
    exact configure_answer (h.ready _)
  · intro r
    rw [hk, (h.ready _).register_kept, ← a.layout.isSome_configure r]
    cases a.layout.configure r <;> rfl
  have hcolumns : columns = a.layout.columns := by simp only [columns, hk]; rfl
  have hfields : fields = a.layout.fields := by simp only [fields, hcolumns]; rfl
  rw [hfields, hcolumns, hk]
  refine ⟨h.nodup, fun c hc => ?_, h.inputs_mem, List.any_eq_true, ?_⟩
  · have hcatalog := h.fromCatalog c hc
    refine ⟨hcatalog.type_eq, hcatalog.kind_ne_auto, ⟨fun hkind => ?_, h.key_kind c⟩,
      hcatalog.merge_eq⟩
    rcases List.mem_append.mp hc with hc | hc
    · exact hc
    · exact absurd hkind (h.value_kind c hc)
  · have hsorted := h.sortedBy_eq
    cases hlatest : (asked.filter fun r => r.isAccepted && decide (r.sort ≠ .none)).getLast? with
    | none =>
      rw [hlatest] at hsorted
      simp [Layout.kept, Layout.sortColumn, hsorted]
    | some r =>
      rw [hlatest] at hsorted
      have hmem : r.field ∈ a.layout.fields := h.sorted_mem _ hsorted
      obtain ⟨⟨part, position⟩, hplace⟩ := Layout.exists_locate hmem
      obtain ⟨type, htype⟩ := h.exists_type hmem
      exact ⟨part, position, type, hplace, htype, Layout.sortColumn_eq hsorted hplace htype⟩

end Aggregator

end FlowTally
