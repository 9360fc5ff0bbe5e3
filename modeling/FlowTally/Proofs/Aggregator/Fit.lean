import FlowTally.Proofs.Aggregator.Operation
import FlowTally.Proofs.Layout.Reading
import Mathlib.Data.List.Forall2

/-!
# The groups fit their layout

As long as the written records are those of this library, every group that is held fits
the columns in force: it stands under the text of its key values in the shard of that
text, and its values have the types and the truncation that the columns ask for. No
operation breaks this, neither one that is refused nor one that replaces the layout.
-/

namespace FlowTally

/-- A value can be a key value of a column. -/
structure Column.TakesKey (c : Column) (v : Value) : Prop where
  /-- It has the type of the column. -/
  type_eq : v.type = c.type
  /-- The column does not truncate it any further. -/
  truncate_eq : v.truncate c.v4Bits c.v6Bits = v

/-- A value can be a merged value of a column: it is absent or has its type. -/
def Column.Takes (c : Column) (v : Option Value) : Prop := ∀ w, v = some w → w.type = c.type

/-- A group has one value for each column, and the column takes it. -/
structure Tally.Fits (l : Layout) (t : Tally) : Prop where
  /-- The key columns take the key values. -/
  keys : List.Forall₂ Column.TakesKey l.key t.keys
  /-- The value columns take the merged values. -/
  values : List.Forall₂ Column.Takes l.value t.values

/-- Every group fits a layout and is found under the text of its key values. -/
structure TallyTable.Fits (l : Layout) (t : TallyTable) : Prop where
  /-- The key is the text of the key values. -/
  key_eq : ∀ key tally, t.find? key = some tally → key = Value.keyText tally.keys
  /-- The group fits. -/
  tally : ∀ key tally, t.find? key = some tally → tally.Fits l

namespace Layout

variable {r : Record} {columns : List Column}

/-- A value read from a record for a column from the catalog has the type of the column. -/
theorem type_of_get {c : Column} {field : FieldId} {v : Value} (hc : c.FromCatalog)
    (hfield : field.type? = c.field.type?) (h : FlowRecord.get r field = .ok v) :
    v.type = c.type := by
  have htype := Record.type_of_get h
  rw [hfield, hc.type_eq] at htype
  exact (Option.some.inj htype).symm

/-- A key column takes what is read for it. -/
theorem takesKey_of_keyValue {side : Side} {c : Column} {v : Value} (hc : c.FromCatalog)
    (h : keyValue r side c = .ok v) : c.TakesKey v := by
  unfold keyValue at h
  split at h
  · next w hw =>
    obtain rfl := Except.ok.inj h
    have htype := type_of_get hc (side.type_resolve c.field) hw
    exact ⟨by rw [Value.type_truncate, htype], Value.truncate_truncate _ _ w⟩
  · obtain rfl := Except.ok.inj h
    exact ⟨by rw [Value.type_truncate, Value.type_zero], Value.truncate_truncate _ _ _⟩
  · cases h

/-- The key columns take what is read for them. -/
theorem takesKey_of_keyValues {side : Side} {vs : List Value}
    (hcolumns : ∀ c ∈ columns, c.FromCatalog) (h : keyValues r side columns = .ok vs) :
    List.Forall₂ Column.TakesKey columns vs := by
  induction columns generalizing vs with
  | nil =>
    obtain rfl : [] = vs := Except.ok.inj h
    exact .nil
  | cons c rest ih =>
    unfold keyValues at h
    split at h
    · cases h
    · next v hv =>
      split at h
      · cases h
      · next tail htail =>
        obtain rfl := Except.ok.inj h
        have hhead := takesKey_of_keyValue (hcolumns c List.mem_cons_self) hv
        exact .cons hhead (ih (fun d hd => hcolumns d (List.mem_cons_of_mem c hd)) htail)

/-- A value column takes what is read for it. -/
theorem takes_of_columnValue {c : Column} {v : Option Value} (hc : c.FromCatalog)
    (h : columnValue r c = .ok v) : c.Takes v := by
  intro w hw
  unfold columnValue at h
  split at h
  · next u hu =>
    obtain rfl := Except.ok.inj h
    obtain rfl := Option.some.inj hw
    exact type_of_get hc rfl hu
  · obtain rfl := Except.ok.inj h
    cases hw
  · cases h

/-- The value columns take what is read for them. -/
theorem takes_of_columnValues {vs : List (Option Value)}
    (hcolumns : ∀ c ∈ columns, c.FromCatalog) (h : columnValues r columns = .ok vs) :
    List.Forall₂ Column.Takes columns vs := by
  induction columns generalizing vs with
  | nil =>
    obtain rfl : [] = vs := Except.ok.inj h
    exact .nil
  | cons c rest ih =>
    unfold columnValues at h
    split at h
    · cases h
    · next v hv =>
      split at h
      · cases h
      · next tail htail =>
        obtain rfl := Except.ok.inj h
        have hhead := takes_of_columnValue (hcolumns c List.mem_cons_self) hv
        exact .cons hhead (ih (fun d hd => hcolumns d (List.mem_cons_of_mem c hd)) htail)

/-- A share of a record fits the layout it was read with. -/
theorem fits_of_mem_shares {l : Layout} {once : Bool} {s : Share} (hl : l.Valid)
    (h : s ∈ l.shares once r) : Tally.Fits l ⟨s.keys, s.values⟩ := by
  obtain ⟨⟨side, hkeys⟩, hvalues⟩ := exists_side_of_mem_shares h
  constructor
  · exact takesKey_of_keyValues (fun c hc => hl.fromCatalog c (List.mem_append_left _ hc)) hkeys
  · exact takes_of_columnValues (fun c hc => hl.fromCatalog c (List.mem_append_right _ hc)) hvalues

end Layout

/-- A column takes the merge of two values that it takes. -/
theorem Column.Takes.apply {c : Column} {old new : Option Value} (hold : c.Takes old)
    (hnew : c.Takes new) (op : Merge) : c.Takes (op.apply old new) := by
  intro w hw
  cases old with
  | none => exact hnew w hw
  | some o =>
    cases new with
    | none => exact hold w hw
    | some n =>
      obtain rfl := Option.some.inj hw
      rw [Merge.type_combine]
      exact hold o rfl

/-- The columns take merged values if they take both lists. -/
theorem takes_mergeValues {columns : List Column} {old new : List (Option Value)}
    (hold : List.Forall₂ Column.Takes columns old)
    (hnew : List.Forall₂ Column.Takes columns new) :
    List.Forall₂ Column.Takes columns (mergeValues columns old new) := by
  induction hold generalizing new with
  | nil => exact .nil
  | cons hhead _ ih =>
    cases hnew with
    | cons hnew htail => exact .cons (hhead.apply hnew _) (ih htail)

/-- A value in the place of another, if its column takes it. -/
theorem takes_set {columns : List Column} {values : List (Option Value)} {i : Nat} {c : Column}
    {v : Option Value} (h : List.Forall₂ Column.Takes columns values)
    (hc : columns[i]? = some c) (hv : c.Takes v) :
    List.Forall₂ Column.Takes columns (values.set i v) := by
  induction h generalizing i with
  | nil => exact .nil
  | cons hhead htail ih =>
    cases i with
    | zero =>
      obtain rfl := Option.some.inj hc
      exact .cons hv htail
    | succ i => exact .cons hhead (ih hc)

/-- What columns take does not depend on their directions. -/
theorem forall₂_of_unsorted {α : Type} {P : Column → α → Prop} {cs ds : List Column}
    {vs : List α} (hP : ∀ c d v, c.unsorted = d.unsorted → P c v → P d v)
    (h : cs.map Column.unsorted = ds.map Column.unsorted) (hcs : List.Forall₂ P cs vs) :
    List.Forall₂ P ds vs := by
  induction hcs generalizing ds with
  | nil =>
    obtain rfl : ds = [] := by simpa using h.symm
    exact .nil
  | cons hhead _ ih =>
    cases ds with
    | nil => simp at h
    | cons d ds =>
      obtain ⟨hd, hds⟩ := List.cons.inj h
      exact .cons (hP _ d _ hd hhead) (ih hds)

namespace Tally.Fits

variable {l m : Layout} {t : Tally}

/-- Filled in derived values are taken by their columns, as the others are. -/
theorem takes_fill (hl : l.Valid) (h : List.Forall₂ Column.Takes l.value t.values) :
    List.Forall₂ Column.Takes l.value (Derived.fill l t).values := by
  refine Derived.fill_induction (fun u => List.Forall₂ Column.Takes l.value u.values) h ?_
  intro u f i v hu _ hlocate htype
  obtain ⟨c, hc, rfl⟩ := Layout.value_of_locate hlocate
  have hcatalog := hl.fromCatalog c (List.mem_append_right _ (List.mem_of_getElem? hc))
  refine takes_set hu hc fun w hw => ?_
  obtain rfl := Option.some.inj hw
  rw [hcatalog.type_eq] at htype
  exact (Option.some.inj htype).symm

/-- A group with filled in derived values fits. -/
theorem fill (hl : l.Valid) (h : t.Fits l) : (Derived.fill l t).Fits l where
  keys := (Derived.keys_fill l t).symm ▸ h.keys
  values := takes_fill hl h.values

/-- A group that fits a layout fits every layout of the same shape. -/
theorem of_shape (hl : l.Valid) (hm : m.Valid) (hshape : l.shape = m.shape) (h : t.Fits l) :
    t.Fits m := by
  obtain ⟨hkey, hvalue⟩ := hl.unsorted_of_shape hm hshape
  constructor
  · refine forall₂_of_unsorted ?_ hkey h.keys
    intro c d v hcd hc
    have htype := congrArg Column.type hcd
    have hv4 := congrArg Column.v4Bits hcd
    have hv6 := congrArg Column.v6Bits hcd
    simp only [Column.unsorted] at htype hv4 hv6
    exact ⟨by rw [← htype, hc.type_eq], by rw [← hv4, ← hv6, hc.truncate_eq]⟩
  · refine forall₂_of_unsorted ?_ hvalue h.values
    intro c d v hcd hc w hw
    have htype := congrArg Column.type hcd
    simp only [Column.unsorted] at htype
    rw [← htype, hc w hw]

end Tally.Fits

namespace TallyTable.Fits

variable {l m : Layout} {t : TallyTable}

/-- A table without groups fits. -/
theorem of_empty (h : ∀ shard ∈ t.shards, shard = []) : t.Fits l where
  key_eq key tally htally := by simp [find?_of_empty h] at htally
  tally key tally htally := by simp [find?_of_empty h] at htally

/-- A table fits when a share that fits is added. -/
theorem addShare (h : t.Fits l) {s : Share} (hs : Tally.Fits l ⟨s.keys, s.values⟩) :
    (t.addShare l.value s).Fits l := by
  have hshared : ∀ key tally, (t.addShare l.value s).find? key = some tally →
      key = Value.keyText tally.keys ∧ tally.Fits l := by
    intro key tally htally
    rw [find?_addShare] at htally
    split at htally
    · next hkey =>
      obtain rfl := Option.some.inj htally
      cases hfind : t.find? s.key with
      | none => exact ⟨hkey, hs⟩
      | some old =>
        have hold := h.tally s.key old hfind
        exact ⟨hkey.trans (h.key_eq s.key old hfind), hold.keys,
          takes_mergeValues hold.values hs.values⟩
    · exact ⟨h.key_eq key tally htally, h.tally key tally htally⟩
  exact ⟨fun key tally ht => (hshared key tally ht).1, fun key tally ht => (hshared key tally ht).2⟩

/-- A table fits when shares that fit are added. -/
theorem addShares {shares : List Share} (h : t.Fits l)
    (hs : ∀ s ∈ shares, Tally.Fits l ⟨s.keys, s.values⟩) :
    (shares.foldl (TallyTable.addShare l.value) t).Fits l := by
  induction shares generalizing t with
  | nil => exact h
  | cons s rest ih =>
    exact ih (h.addShare (hs s List.mem_cons_self)) fun r hr => hs r (List.mem_cons_of_mem s hr)

/-- A table with filled in derived values fits. -/
theorem fill (hl : l.Valid) (h : t.Fits l) : (t.mapTallies (Derived.fill l)).Fits l where
  key_eq key tally htally := by
    rw [find?_mapTallies] at htally
    obtain ⟨old, hold, rfl⟩ := Option.map_eq_some_iff.mp htally
    rw [Derived.keys_fill]
    exact h.key_eq key old hold
  tally key tally htally := by
    rw [find?_mapTallies] at htally
    obtain ⟨old, hold, rfl⟩ := Option.map_eq_some_iff.mp htally
    exact (h.tally key old hold).fill hl

/-- A table that fits a layout fits every layout of the same shape. -/
theorem of_shape (hl : l.Valid) (hm : m.Valid) (hshape : l.shape = m.shape) (h : t.Fits l) :
    t.Fits m where
  key_eq := h.key_eq
  tally key tally htally := (h.tally key tally htally).of_shape hl hm hshape

end TallyTable.Fits

namespace Aggregator

/-- What holds of an aggregation of records of this library. -/
structure Sound (a : Aggregator) : Prop where
  /-- The layout was configured. -/
  valid : a.layout.Valid
  /-- Each group stands in its shard. -/
  placed : a.table.Placed
  /-- The groups fit the layout. -/
  fits : a.table.Fits a.layout

/-- A new aggregation is sound. -/
theorem Sound.new (n : Nat) (spread : String → Nat) : (new n spread).Sound :=
  ⟨.empty, .of_empty TallyTable.shards_new, .of_empty TallyTable.shards_new⟩

section

variable {a a' : Aggregator}

/-- Reading the results keeps an aggregation sound. -/
theorem Sound.read (h : a.Sound) (hread : a.ReadsTo a') : a'.Sound := by
  obtain ⟨hlayout, -⟩ := hread.keeps
  constructor
  · rw [hlayout]
    exact h.valid
  · rcases hread.table_cases with htable | htable
    · rw [htable]
      exact h.placed
    · rw [htable]
      exact h.placed.mapTallies _
  · rcases hread.table_cases with htable | htable
    · rw [htable, hlayout]
      exact h.fits
    · rw [htable, hlayout]
      exact h.fits.fill h.valid

/-- Writing a record keeps an aggregation sound. -/
theorem Sound.write (h : a.Sound) (r : Record) : (a.write r).1.Sound := by
  obtain ⟨hlayout, -⟩ := a.write_keeps r
  constructor
  · rw [hlayout]
    exact h.valid
  · rw [table_write]
    exact h.placed.addShares _ _
  · rw [table_write, hlayout]
    exact h.fits.addShares fun s hs => Layout.fits_of_mem_shares h.valid hs

/-- Configuring a field keeps an aggregation sound, whether the request is refused, asks for
another direction only or drops the groups. -/
theorem Sound.configure (h : a.Sound) (r : ColumnRequest) : (a.configure r).1.Sound := by
  rcases a.configure_cases r with ⟨-, hsame⟩ | ⟨l, hsome, hput⟩
  · rw [hsame]
    exact ⟨h.valid, h.placed, h.fits⟩
  · have hvalid : l.Valid := h.valid.configure hsome
    rw [hput]
    by_cases hshape : l.shape = a.layout.shape
    · simp only [if_pos hshape]
      exact ⟨hvalid, h.placed, h.fits.of_shape h.valid hvalid hshape.symm⟩
    · simp only [if_neg hshape]
      exact ⟨hvalid, .of_empty TallyTable.shards_clear, .of_empty TallyTable.shards_clear⟩

/-- Every operation keeps an aggregation sound. -/
theorem Sound.step (h : a.Sound) {op : Operation} (hop : op.OnRecords) : (a.step op).Sound := by
  cases op with
  | configure r => exact h.configure r
  | setPairOnce on => exact ⟨h.valid, h.placed, h.fits⟩
  | setOrdering ordering => exact ⟨h.valid, h.placed, h.fits⟩
  | write r =>
    obtain ⟨s, hs⟩ := hop
    rw [hs]
    exact h.write s
  | firstPosition => exact h
  | nextPosition c => exact h
  | materialize c out => exact h.read (readsTo_materialize a c out)
  | report format limit => exact h.read (readsTo_report a format limit)
  | clear =>
    exact ⟨.empty, .of_empty TallyTable.shards_clear, .of_empty TallyTable.shards_clear⟩

/-- Every reachable aggregation is sound. -/
theorem RecordReachable.sound (h : a.RecordReachable) : a.Sound :=
  h.induction Sound.new fun _ _ hop ha => ha.step hop

end

end Aggregator

/-- A table represents groups under a layout. -/
structure TallyTable.Represents (l : Layout) (t : TallyTable) : Prop where
  /-- Each group stands under the text of its key values. -/
  key_eq : ∀ shard ∈ t.shards, ∀ e ∈ shard, e.1 = Value.keyText e.2.keys
  /-- There is one key value for each key column, and the column takes it. -/
  keys : ∀ shard ∈ t.shards, ∀ e ∈ shard, List.Forall₂ Column.TakesKey l.key e.2.keys
  /-- There is one merged value for each value column, and the column takes it. -/
  values : ∀ shard ∈ t.shards, ∀ e ∈ shard, List.Forall₂ Column.Takes l.value e.2.values
  /-- Each key is in the shard of its index and in no other. -/
  home : ∀ i shard, t.shards[i]? = some shard → ∀ e ∈ shard, t.shardIndex e.1 = i
  /-- No key stands twice. -/
  nodup : (t.entries.map (·.1)).Nodup

namespace Aggregator

/-- The groups of a sound aggregation fit its layout. -/
theorem Sound.table_represents {a : Aggregator} (h : a.Sound) : a.table.Represents a.layout := by
  have hfind : ∀ shard ∈ a.table.shards, ∀ e ∈ shard, a.table.find? e.1 = some e.2 := by
    intro shard hshard e he
    exact h.placed.mem_entries_iff.mp (List.mem_flatten.mpr ⟨shard, hshard, he⟩)
  constructor
  · exact fun shard hshard e he => h.fits.key_eq e.1 e.2 (hfind shard hshard e he)
  · exact fun shard hshard e he => (h.fits.tally e.1 e.2 (hfind shard hshard e he)).keys
  · exact fun shard hshard e he => (h.fits.tally e.1 e.2 (hfind shard hshard e he)).values
  · exact h.placed.home
  · exact h.placed.nodup_keys

/-- In every state that records of this library lead to, and after every further request
for a column, the table represents groups under the layout in force. -/
theorem RecordReachable.represents {a : Aggregator} (h : a.RecordReachable) :
    a.table.Represents a.layout ∧
      ∀ r, (a.configure r).1.table.Represents (a.configure r).1.layout :=
  ⟨h.sound.table_represents, fun r => (h.sound.configure r).table_represents⟩

/-- A run in which both sides of a record have one network, derived values are filled in,
and at last only the direction of a column is changed. -/
def networkRun : List Operation :=
  [.configure ⟨.addr, .key, .asc, 24, 64⟩, .configure ⟨.bitRate, .auto, .none, 0, 0⟩,
   .write (fillRecord Record.empty [(.addr, .addr (.v4 0xc0a80105)), (.bytes, .u64 100)]).1,
   .materialize ⟨0⟩ Record.empty, .configure ⟨.addr, .key, .desc, 24, 64⟩]

/-- The run leaves one group, and the group fits the layout. -/
theorem represents_networkRun :
    let a := (new 2 TallyTable.polynomialSpread).run networkRun
    a.RecordReachable ∧ a.table.size = 1 ∧ a.table.Represents a.layout := by
  have hreachable : ((new 2 TallyTable.polynomialSpread).run networkRun).RecordReachable := by
    refine ⟨2, TallyTable.polynomialSpread, networkRun, ?_, rfl⟩
    simp [networkRun, Operation.OnRecords]
  exact ⟨hreachable, by decide +kernel, (RecordReachable.represents hreachable).1⟩

end Aggregator

end FlowTally
