import FlowTally.Proofs.Aggregator.Answer
import FlowTally.Proofs.Aggregator.Grouping
import FlowTally.Proofs.Aggregator.Kept

/-!
# Reading leaves no trace

Reading the results fills derived values into the groups, and records that are written
later are merged into what was filled in. None of it can be seen: before anything is shown
the derived values are filled in again, and they are computed from the other values of
their group. So two runs with the same changes show the same, wherever they read.
-/

namespace FlowTally

/-- What is filled in depends on the shape of the layout only. -/
theorem Derived.fill_of_shape {l m : Layout} (h : l.shape = m.shape) : fill l = fill m := by
  obtain ⟨hkey, hvalue⟩ := Prod.mk.inj h
  have hposition : ∀ (f : FieldId) (cs ds : List Column),
      cs.map (fun c => (c.field, c.kind, c.v4Bits, c.v6Bits)) =
        ds.map (fun c => (c.field, c.kind, c.v4Bits, c.v6Bits)) →
      Layout.position? f cs = Layout.position? f ds := by
    intro f cs ds hslots
    have hfields := congrArg (List.findIdx? fun slot => decide (slot.1 = f)) hslots
    rw [List.findIdx?_map, List.findIdx?_map] at hfields
    exact hfields
  have hlocate : l.locate = m.locate := by
    funext f
    rw [Layout.locate, Layout.locate, hposition f _ _ hkey, hposition f _ _ hvalue]
  have hplaces : inputPlaces l = inputPlaces m := by
    funext fs
    induction fs with
    | nil => rfl
    | cons f rest ih => rw [inputPlaces, inputPlaces, hlocate, ih]
  have hfield : fillField l = fillField m := by
    funext t f
    rw [fillField, fillField, hlocate, hplaces]
  funext t
  rw [fill, fill, hfield]

/-- Values that are merged into a group may as well be merged into the group with its derived
values filled in. -/
theorem Derived.fill_sharedTally {l : Layout} (hl : l.Valid) (s : Share) (t : Option Tally) :
    fill l (TallyTable.sharedTally l.value s (t.map (fill l))) =
      fill l (TallyTable.sharedTally l.value s t) := by
  cases t with
  | none => rfl
  | some t =>
    refine fill_congr hl ⟨keys_fill l t, ?_, fun i hi => ?_⟩
    · rw [Option.map_some, TallyTable.sharedTally, TallyTable.sharedTally, length_mergeValues,
        length_mergeValues, length_values_fill]
    · rw [Option.map_some, TallyTable.sharedTally, TallyTable.sharedTally, getElem?_mergeValues_eq,
        getElem?_mergeValues_eq, values_fill_of_not_derived t hi]

namespace Assoc

/-- A value may be changed before or after it is stored. -/
theorem map_insert {κ α β : Type} [DecidableEq κ] [LT κ] [DecidableLT κ] (f : α → β) (key : κ)
    (value : α) (entries : List (κ × α)) :
    (insert key value entries).map (fun e => (e.1, f e.2)) =
      insert key (f value) (entries.map fun e => (e.1, f e.2)) := by
  induction entries with
  | nil => rfl
  | cons e rest ih =>
    by_cases hkey : e.1 = key
    · simp [insert, hkey]
    · by_cases hlt : key < e.1
      · simp [insert, hkey, hlt]
      · simp [insert, hkey, hlt, ih]

end Assoc

namespace TallyTable

/-- A group may be changed before or after it is stored. -/
theorem mapTallies_store (t : TallyTable) (f : Tally → Tally) (key : String) (tally : Tally) :
    (t.store key tally).mapTallies f = (t.mapTallies f).store key (f tally) := by
  refine eq_of_shards rfl ?_
  simp only [store, modifyShard, mapTallies, shardIndex, List.length_map]
  refine List.ext_getElem? fun i => ?_
  rw [List.getElem?_map, List.getElem?_modify, List.getElem?_modify, List.getElem?_map]
  cases t.shards[i]? with
  | none => rfl
  | some shard =>
    by_cases hi : t.spread key % t.shards.length = i
    · simp [hi, Assoc.map_insert]
    · simp [hi]

section

variable {l : Layout} {t u : TallyTable}

/-- Two tables are equal once their derived values are filled in. -/
def FilledAlike (l : Layout) (t u : TallyTable) : Prop :=
  t.mapTallies (Derived.fill l) = u.mapTallies (Derived.fill l)

/-- A table and the table with its derived values filled in are filled in alike. -/
theorem FilledAlike.fill (hl : l.Valid) (t : TallyTable) :
    FilledAlike l (t.mapTallies (Derived.fill l)) t := by
  rw [FilledAlike, mapTallies_mapTallies]
  simp only [Derived.fill_fill hl]

/-- Tables that are filled in alike are so under every layout of the same shape. -/
theorem FilledAlike.of_shape {m : Layout} (h : FilledAlike l t u) (hshape : l.shape = m.shape) :
    FilledAlike m t u := by
  rw [FilledAlike, ← Derived.fill_of_shape hshape]
  exact h

/-- Tables that are filled in alike have as many groups. -/
theorem FilledAlike.size_eq (h : FilledAlike l t u) : t.size = u.size := by
  have hsize := congrArg size h
  rwa [size_mapTallies, size_mapTallies] at hsize

/-- Tables that are filled in alike are equal without their groups. -/
theorem FilledAlike.clear_eq (h : FilledAlike l t u) : t.clear = u.clear := by
  have hclear := congrArg clear h
  rwa [clear_mapTallies, clear_mapTallies] at hclear

/-- Adding a share leaves tables filled in alike: what it is merged into agrees in all values
that are not derived. -/
theorem FilledAlike.addShare (hl : l.Valid) (h : FilledAlike l t u) (s : Share) :
    FilledAlike l (t.addShare l.value s) (u.addShare l.value s) := by
  have hadd : ∀ v : TallyTable, (v.addShare l.value s).mapTallies (Derived.fill l) =
      ((v.mapTallies (Derived.fill l)).addShare l.value s).mapTallies (Derived.fill l) := by
    intro v
    rw [addShare_eq, addShare_eq, mapTallies_store, mapTallies_store, find?_mapTallies,
      Derived.fill_sharedTally hl, FilledAlike.fill hl v]
  rw [FilledAlike, hadd t, hadd u, h]

/-- Adding shares leaves tables filled in alike. -/
theorem FilledAlike.addShares (hl : l.Valid) (h : FilledAlike l t u) (shares : List Share) :
    FilledAlike l (shares.foldl (TallyTable.addShare l.value) t)
      (shares.foldl (TallyTable.addShare l.value) u) := by
  induction shares generalizing t u with
  | nil => exact h
  | cons s rest ih => exact ih (h.addShare hl s)

end

end TallyTable

/-- Whether an operation changes something: it does not only read. -/
def Operation.isChange : Operation → Bool
  | .firstPosition | .nextPosition _ | @materialize _ _ _ _ | .report _ _ => false
  | _ => true

namespace Aggregator

/-- An operation that changes nothing only reads. -/
theorem readsTo_step (a : Aggregator) {op : Operation} (h : op.isChange = false) :
    a.ReadsTo (a.step op) := by
  cases op with
  | firstPosition => exact .inl rfl
  | nextPosition c => exact .inl rfl
  | materialize c out => exact readsTo_materialize a c out
  | report format limit => exact readsTo_report a format limit
  | _ => cases h

/-- Reading counts nothing but rebuilds. -/
theorem ReadsTo.ofWrites_eq {a a' : Aggregator} (h : a.ReadsTo a') :
    a'.counters.ofWrites = a.counters.ofWrites := by
  rcases h with rfl | rfl
  · rfl
  · rcases a.sortedKeys_cases with ⟨kept, -, -, heq⟩ | ⟨-, heq⟩
    · rw [heq]
    · rw [heq]
      rfl

/-- Two aggregations went through the same changes: they differ at most in derived values that
were filled in, and in what they kept and counted of it. -/
structure SameChanges (a b : Aggregator) : Prop where
  /-- They have the same columns. -/
  layout_eq : a.layout = b.layout
  /-- They count pairs alike. -/
  pairOnce_eq : a.pairOnce = b.pairOnce
  /-- They order addresses alike. -/
  ordering_eq : a.ordering = b.ordering
  /-- They have the same groups, once the derived values are filled in. -/
  table_alike : TallyTable.FilledAlike a.layout a.table b.table
  /-- They counted alike. -/
  ofWrites_eq : a.counters.ofWrites = b.counters.ofWrites
  /-- The one is reachable. -/
  left : a.Reachable
  /-- The other is reachable. -/
  right : b.Reachable

namespace SameChanges

variable {a b c : Aggregator}

/-- A state went through its own changes. -/
theorem refl (h : a.Reachable) : SameChanges a a := ⟨rfl, rfl, rfl, rfl, rfl, h, h⟩

/-- Going through the same changes is symmetric. -/
theorem symm (h : SameChanges a b) : SameChanges b a :=
  ⟨h.layout_eq.symm, h.pairOnce_eq.symm, h.ordering_eq.symm, h.layout_eq ▸ h.table_alike.symm,
    h.ofWrites_eq.symm, h.right, h.left⟩

/-- Going through the same changes is transitive. -/
theorem trans (h : SameChanges a b) (h' : SameChanges b c) : SameChanges a c :=
  ⟨h.layout_eq.trans h'.layout_eq, h.pairOnce_eq.trans h'.pairOnce_eq,
    h.ordering_eq.trans h'.ordering_eq,
    h.table_alike.trans (h.layout_eq ▸ h'.table_alike), h.ofWrites_eq.trans h'.ofWrites_eq,
    h.left, h'.right⟩

/-- Reading is not a change. -/
theorem read (h : a.Reachable) {op : Operation} (hop : op.isChange = false) :
    SameChanges (a.step op) a := by
  have hread := a.readsTo_step hop
  obtain ⟨hlayout, honce, hordering, -⟩ := hread.keeps
  refine ⟨hlayout, honce, hordering, ?_, hread.ofWrites_eq, h.step op, h⟩
  rw [hlayout]
  rcases hread.table_cases with htable | htable
  · rw [htable]
    rfl
  · rw [htable]
    exact .fill h.coherent.valid a.table

/-- What the results are computed from is the same. -/
theorem rebuild_eq (h : SameChanges a b) :
    a.table.rebuild a.layout a.ordering = b.table.rebuild b.layout b.ordering := by
  have htable := h.table_alike
  rw [TallyTable.FilledAlike] at htable
  simp only [TallyTable.rebuild, ← h.layout_eq, ← h.ordering_eq, htable]

/-- Reading cannot tell aggregations with the same changes apart. -/
theorem readsAlike : ReadsAlike SameChanges where
  layout_eq h := h.layout_eq
  size_eq h := h.table_alike.size_eq
  filled_eq {R} _ {a b} c out h := by
    have hsorted : (a.sortedKeys.1.table, a.sortedKeys.2) = (b.sortedKeys.1.table, b.sortedKeys.2)
        := by
      rw [h.left.coherent.sortedKeys_eq, h.right.coherent.sortedKeys_eq, h.rebuild_eq]
    obtain ⟨htable, hkeys⟩ := Prod.mk.inj hsorted
    refine materialize_congr h.layout_eq ?_ htable hkeys c out
    rw [TallyTable.isEmpty_eq, TallyTable.isEmpty_eq, h.table_alike.size_eq]
  materialize {R} _ {a b} c out h :=
    have hop : (Operation.materialize c out).isChange = false := rfl
    (read h.left hop).trans (h.trans (read h.right hop).symm)

/-- A request is one change. -/
theorem configure (h : SameChanges a b) (r : ColumnRequest) :
    SameChanges (a.configure r).1 (b.configure r).1 := by
  have hleft : (a.configure r).1.Reachable := h.left.step (.configure r)
  have hright : (b.configure r).1.Reachable := h.right.step (.configure r)
  rcases a.configure_cases r with ⟨hnone, hsame⟩ | ⟨l, hsome, hput⟩
  · rcases b.configure_cases r with ⟨-, hsame'⟩ | ⟨l', hsome', -⟩
    · rw [hsame] at hleft ⊢
      rw [hsame'] at hright ⊢
      exact ⟨h.layout_eq, h.pairOnce_eq, h.ordering_eq, h.table_alike, h.ofWrites_eq, hleft,
        hright⟩
    · rw [h.layout_eq, hsome'] at hnone
      cases hnone
  · rcases b.configure_cases r with ⟨hnone', -⟩ | ⟨l', hsome', hput'⟩
    · rw [h.layout_eq, hnone'] at hsome
      cases hsome
    · rw [h.layout_eq, hsome'] at hsome
      obtain rfl := Option.some.inj hsome
      rw [hput] at hleft ⊢
      rw [hput'] at hright ⊢
      refine ⟨rfl, h.pairOnce_eq, h.ordering_eq, ?_, h.ofWrites_eq, hleft, hright⟩
      dsimp only
      rw [← h.layout_eq]
      split
      · next hshape => exact h.table_alike.of_shape hshape.symm
      · rw [h.table_alike.clear_eq]
        rfl

/-- A write is one change. -/
theorem write (h : SameChanges a b) {R : Type} [FlowRecord R] (r : R) :
    SameChanges (a.write r).1 (b.write r).1 := by
  obtain ⟨hlayout, honce, hordering, -⟩ := a.write_keeps r
  obtain ⟨hlayout', honce', hordering', -⟩ := b.write_keeps r
  have hvalid := h.left.coherent.valid
  have halike : TallyTable.FilledAlike a.layout (a.write r).1.table (b.write r).1.table := by
    rw [table_write, table_write, ← h.layout_eq, ← h.pairOnce_eq]
    exact h.table_alike.addShares hvalid _
  have hcounted := Counted.write h.left.placed r
  have hcounted' := Counted.write h.right.placed r
  rw [← h.layout_eq, ← h.pairOnce_eq] at hcounted'
  constructor
  · rw [hlayout, hlayout', h.layout_eq]
  · rw [honce, honce', h.pairOnce_eq]
  · rw [hordering, hordering', h.ordering_eq]
  · rw [hlayout]
    exact halike
  · exact hcounted.ofWrites_eq_of_perm hcounted' (.refl _) h.layout_eq h.ofWrites_eq
      h.table_alike.size_eq halike.size_eq
  · exact h.left.step (.write r)
  · exact h.right.step (.write r)

/-- No operation tells aggregations with the same changes apart. -/
theorem indistinct : Indistinct SameChanges := by
  refine .of_readsAlike readsAlike (fun r h => h.configure r) ?_ ?_ (fun r h => h.write r) ?_
  · intro a b on h
    exact ⟨h.layout_eq, rfl, h.ordering_eq, h.table_alike, h.ofWrites_eq,
      h.left.step (.setPairOnce on), h.right.step (.setPairOnce on)⟩
  · intro a b ordering h
    exact ⟨h.layout_eq, h.pairOnce_eq, rfl, h.table_alike, h.ofWrites_eq,
      h.left.step (.setOrdering ordering), h.right.step (.setOrdering ordering)⟩
  · intro a b h
    refine ⟨rfl, rfl, rfl, ?_, rfl, h.left.step .clear, h.right.step .clear⟩
    simp only [clear, h.table_alike.clear_eq]
    rfl

/-- A run goes through its changes, whatever else it does. -/
theorem run_filter (h : SameChanges a b) (ops : List Operation) :
    SameChanges (a.run ops) (b.run (ops.filter Operation.isChange)) := by
  induction ops generalizing a b with
  | nil => exact h
  | cons op rest ih =>
    cases hop : op.isChange with
    | true =>
      rw [List.filter_cons_of_pos hop]
      exact ih (indistinct.step op h)
    | false =>
      rw [List.filter_cons_of_neg (by rw [hop]; exact Bool.false_ne_true)]
      exact ih ((read h.left hop).trans h)

end SameChanges

/-- Reading leaves no trace. In every reachable state a kept order of this generation is what
computing it now would give, and computing it would change no group; a record is filled as if
nothing had been kept. So two runs that go through the same changes, wherever and however
often they read, show the same at their ends but for the count of the rebuilds, and give the
same answers from there on. -/
theorem answers_of_changes (n : Nat) (spread : String → Nat) {ops ops' : List Operation}
    (h : ops.filter Operation.isChange = ops'.filter Operation.isChange) :
    let a := (new n spread).run ops
    let b := (new n spread).run ops'
    (∀ kept, a.kept = some kept → kept.generation = a.generation →
      a.table.rebuild a.layout a.ordering = (a.table, kept.keys)) ∧
    (∀ {R : Type} [FlowRecord R] (c : Cursor) (out : R),
      (a.materialize c out).2 = ({ a with kept := none }.materialize c out).2) ∧
    a.status.ofChanges = b.status.ofChanges ∧
    ∀ rest, a.answers rest = b.answers rest := by
  intro a b
  have ha : a.Reachable := ⟨n, spread, ops, rfl⟩
  have hstart := SameChanges.refl ⟨n, spread, [], rfl⟩
  have hchanges : SameChanges a ((new n spread).run (ops.filter Operation.isChange)) :=
    hstart.run_filter ops
  have hchanges' : SameChanges b ((new n spread).run (ops'.filter Operation.isChange)) :=
    hstart.run_filter ops'
  have hab : SameChanges a b := hchanges.trans (h ▸ hchanges'.symm)
  refine ⟨ha.coherent.rebuild_eq, fun c out => ha.coherent.materialize_eq c out, ?_,
    SameChanges.indistinct.answers_eq hab⟩
  simp only [Status.ofChanges, status, groupCount, hab.layout_eq, hab.pairOnce_eq,
    hab.ordering_eq, hab.table_alike.size_eq, hab.ofWrites_eq]

/-- A flow of two seconds from a port. -/
def portRecord (port : UInt16) (bytes : UInt64) : Record :=
  (fillRecord Record.empty
    [(.srcPort, .u16 port), (.first, .timestamp .epoch), (.bytes, .u64 bytes),
     (.last, .timestamp ((Instant.ofParts? 2 0).getD .epoch))]).1

/-- A run that reads between two records of one group. -/
def ratedRun : List Operation :=
  [.configure ⟨.srcPort, .key, .none, 0, 0⟩, .configure ⟨.bitRate, .auto, .desc, 0, 0⟩,
   .firstPosition, .write (portRecord 53 100), .materialize ⟨0⟩ Record.empty, .nextPosition ⟨0⟩,
   .write (portRecord 53 300)]

/-- The run leaves other groups than its changes alone, since derived values were filled in on
the way, and yet the same is shown. -/
theorem answers_ratedRun :
    let a := (new 2 TallyTable.polynomialSpread).run ratedRun
    let b := (new 2 TallyTable.polynomialSpread).run (ratedRun.filter Operation.isChange)
    a.table.find? "w:53;" ≠ b.table.find? "w:53;" ∧
      a.counters.sortRebuilds = 1 ∧ b.counters.sortRebuilds = 0 ∧
      a.status.ofChanges = b.status.ofChanges ∧
      a.answers [.materialize ⟨0⟩ Record.empty, .report .table 0] =
        b.answers [.materialize ⟨0⟩ Record.empty, .report .table 0] := by
  intro a b
  have hchanges : ratedRun.filter Operation.isChange =
      (ratedRun.filter Operation.isChange).filter Operation.isChange := rfl
  obtain ⟨-, -, hstatus, hanswers⟩ := answers_of_changes 2 TallyTable.polynomialSpread hchanges
  exact ⟨by decide +kernel, by decide +kernel, by decide +kernel, hstatus, hanswers _⟩

end Aggregator

end FlowTally
