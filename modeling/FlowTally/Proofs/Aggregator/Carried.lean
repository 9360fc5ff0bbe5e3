import FlowTally.Proofs.Aggregator.Transparent
import FlowTally.Proofs.Layout.Reading

/-!
# Derived values that records carry are not seen

A record may carry a duration or a rate. Where such a field is merged its value goes into the group
like any other, but before anything is shown, ordered by or computed from it, the derived values of
the group are computed from the others. So runs whose records agree in the fields they are grouped
by and in the merged fields that are not derived go through states that differ in derived values at
most. They answer alike at every step, and asking for the order makes them equal.
-/

namespace FlowTally

/-- Two records agree in what a layout reads, but for the derived values among the merged ones. -/
structure Record.AgreesUnder (l : Layout) (r s : Record) : Prop where
  /-- The one has storage. -/
  left : r.allocated = true
  /-- The other has storage. -/
  right : s.allocated = true
  /-- They agree in the fields that are grouped by, in both members of a pair. -/
  key : ∀ c ∈ l.key, ∀ f ∈ c.field.cells, r.get f = s.get f
  /-- They agree in the merged fields that are not derived. -/
  value : ∀ c ∈ l.value, c.field.isDerived = false → r.get c.field = s.get c.field

/-- Two operations read alike, or write records that agree in what a layout reads but for derived
values. -/
inductive Operation.Alike (l : Layout) : Operation → Operation → Prop where
  /-- The same reading. -/
  | read {op : Operation} (h : op.isChange = false) : Alike l op op
  /-- Agreeing records. -/
  | write {r s : Record} (h : r.AgreesUnder l s) : Alike l (.write r) (.write s)

/-- A derived field has a cell of its own. -/
theorem FieldId.eq_of_mem_cells {f g : FieldId} (hf : f.isDerived = true) (h : f ∈ g.cells) :
    g = f := by
  have hmembers : ∀ p ∈ pairs, p.2.1.isDerived = false ∧ p.2.2.isDerived = false := by decide
  unfold cells at h
  cases hpair : g.members? with
  | none =>
    rw [hpair] at h
    exact (List.mem_singleton.mp h).symm
  | some members =>
    obtain ⟨source, destination⟩ := members
    obtain ⟨hsource, hdestination⟩ := hmembers _ (mem_pairs_of_members? hpair)
    rw [hpair] at h
    rcases List.mem_cons.mp h with rfl | h
    · rw [hsource] at hf
      cases hf
    · obtain rfl := List.mem_singleton.mp h
      rw [hdestination] at hf
      cases hf

/-- A derived field writes its own cell alone. -/
theorem FieldId.cells_of_isDerived {f : FieldId} (h : f.isDerived = true) : f.cells = [f] := by
  have hall : ∀ g ∈ FieldId.derived, g.cells = [g] := by decide
  exact hall f (of_decide_eq_true h)

/-- No field stands among the key columns and among the value columns. -/
theorem Layout.Valid.notMem_value {l : Layout} (hl : l.Valid) {c : Column} (hc : c ∈ l.key) :
    c.field ∉ l.value.map (·.field) := by
  have hnodup := hl.nodup
  rw [Layout.fields_eq] at hnodup
  exact fun hmem => (List.nodup_append.mp hnodup).2.2 _ (List.mem_map_of_mem hc) _ hmem rfl

/-- The cell that is read for a field on a side is one that the field writes. -/
theorem FieldId.cellOf_resolve_mem_cells (f : FieldId) (side : Side) :
    Record.cellOf (side.resolve f) ∈ f.cells := by
  cases hpair : f.members? with
  | none =>
    have hsame : side.resolve f = f := by
      unfold Side.resolve
      rw [hpair]
      cases side <;> rfl
    rw [hsame]
    exact Record.cellOf_mem_cells f
  | some members =>
    obtain ⟨source, destination⟩ := members
    have hcells : f.cells = [source, destination] := by rw [FieldId.cells, hpair]
    cases side with
    | plain => exact Record.cellOf_mem_cells f
    | source =>
      have hresolve : Side.source.resolve f = source := by
        unfold Side.resolve
        rw [hpair]
      have hmem : source ∈ f.cells := hcells ▸ List.mem_cons_self
      rwa [hresolve, Record.cellOf_of_isPair (FieldId.cells_types hmem).2]
    | destination =>
      have hresolve : Side.destination.resolve f = destination := by
        unfold Side.resolve
        rw [hpair]
      have hmem : destination ∈ f.cells :=
        hcells ▸ List.mem_cons_of_mem source List.mem_cons_self
      rwa [hresolve, Record.cellOf_of_isPair (FieldId.cells_types hmem).2]

namespace Record

variable {r s : Record} {l : Layout}

/-- Records that agree in a field hold the same in its cell. -/
theorem lookup_eq_of_get_eq (hr : r.allocated = true) (hs : s.allocated = true) {f : FieldId}
    (hf : f.type?.isSome = true) (h : r.get f = s.get f) :
    Assoc.lookup (cellOf f) r.cells = Assoc.lookup (cellOf f) s.cells := by
  rw [get_eq hr hf, get_eq hs hf] at h
  generalize Assoc.lookup (cellOf f) r.cells = held at h ⊢
  generalize Assoc.lookup (cellOf f) s.cells = held' at h ⊢
  cases held with
  | none =>
    cases held' with
    | none => rfl
    | some w => cases h
  | some v =>
    cases held' with
    | none => cases h
    | some w => exact congrArg some (Except.ok.inj h)

/-- Agreeing records have the same value for a key column on each side. -/
theorem AgreesUnder.keyOf_eq (h : r.AgreesUnder l s) {c : Column} (hc : c ∈ l.key)
    (hcatalog : c.FromCatalog) (side : Side) : r.keyOf side c = s.keyOf side c := by
  have hmem := c.field.cellOf_resolve_mem_cells side
  obtain ⟨htype, hpair⟩ := FieldId.cells_types hmem
  have hsome : (cellOf (side.resolve c.field)).type?.isSome = true := by
    rw [htype, hcatalog.type_eq, Option.isSome_some]
  have hlookup := lookup_eq_of_get_eq h.left h.right hsome (h.key c hc _ hmem)
  rw [cellOf_of_isPair hpair] at hlookup
  rw [keyOf, keyOf, hlookup]

/-- Agreeing records have the same value for a value column that is not derived. -/
theorem AgreesUnder.valueOf_eq (h : r.AgreesUnder l s) {c : Column} (hc : c ∈ l.value)
    (hcatalog : c.FromCatalog) (hderived : c.field.isDerived = false) :
    r.valueOf c = s.valueOf c :=
  lookup_eq_of_get_eq h.left h.right (by rw [hcatalog.type_eq, Option.isSome_some])
    (h.value c hc hderived)

/-- Writing a field changes no field that is read from another cell. -/
theorem get_of_set {f g : FieldId} {v : Value} (h : r.set f v = .ok s)
    (hg : cellOf g ∉ f.cells) : r.get g = s.get g := by
  obtain ⟨hr, hs, hcells⟩ := set_spec h
  unfold get
  rw [hcells, Cells.lookup_store, if_neg hg, hr, hs]

/-- A record agrees with what becomes of it when a merged derived field is written. -/
theorem AgreesUnder.of_set (hl : l.Valid) {f : FieldId} (hf : f ∈ l.value.map (·.field))
    (hderived : f.isDerived = true) {v : Value} (h : r.set f v = .ok s) : r.AgreesUnder l s := by
  have hget : ∀ g, cellOf g ≠ f → r.get g = s.get g := fun g hg =>
    get_of_set h (by rwa [FieldId.cells_of_isDerived hderived, List.mem_singleton])
  obtain ⟨hr, hs, -⟩ := set_spec h
  refine ⟨hr, hs, fun c hc g hg => hget g fun heq => ?_,
    fun c hc hraw => hget c.field fun heq => ?_⟩
  · rw [cellOf_of_isPair (FieldId.cells_types hg).2] at heq
    obtain rfl : c.field = f := FieldId.eq_of_mem_cells hderived (heq ▸ hg)
    exact hl.notMem_value hc hf
  · obtain hsame : c.field = f :=
      FieldId.eq_of_mem_cells hderived (heq ▸ cellOf_mem_cells c.field)
    rw [hsame, hderived] at hraw
    cases hraw

end Record

namespace TallyTable

/-- Shares with the same key values, whose other values differ in derived fields at most, leave
tables filled in alike. -/
theorem FilledAlike.addAgreeing {l : Layout} {t u : TallyTable} (hl : l.Valid)
    (h : FilledAlike l t u) {keys : List Value} {values values' : List (Option Value)}
    (hvalues : Derived.AgreeBut l FieldId.derived ⟨keys, values⟩ ⟨keys, values'⟩) :
    FilledAlike l (t.addShare l.value ⟨keys, values⟩) (u.addShare l.value ⟨keys, values'⟩) := by
  have hmerged : ∀ o, Derived.fill l (sharedTally l.value ⟨keys, values⟩ o) =
      Derived.fill l (sharedTally l.value ⟨keys, values'⟩ o) := by
    intro o
    cases o with
    | none => exact Derived.fill_congr hl hvalues
    | some tally =>
      refine Derived.fill_congr hl ⟨rfl, ?_, fun i hi => ?_⟩
      · rw [sharedTally, sharedTally, length_mergeValues, length_mergeValues]
      · have hnew : values[i]? = values'[i]? := hvalues.values_eq i hi
        rw [sharedTally, sharedTally, getElem?_mergeValues_eq, getElem?_mergeValues_eq, hnew]
  refine (h.addShare hl ⟨keys, values⟩).trans ?_
  rw [addShare_eq, addShare_eq, mapTallies_store, mapTallies_store, hmerged]
  rfl

end TallyTable

namespace Aggregator

/-- Two aggregations differ at most in derived values of their groups. -/
def SameButDerived (a b : Aggregator) : Prop :=
  ∃ u, TallyTable.FilledAlike a.layout a.table u ∧ b = { a with table := u }

namespace SameButDerived

variable {a b : Aggregator}

/-- An aggregation is the same as itself. -/
theorem refl (a : Aggregator) : SameButDerived a a := ⟨a.table, rfl, rfl⟩

/-- Asking for the order computes the derived values, which leaves no difference. -/
theorem sortedKeys_eq (h : SameButDerived a b) (ha : a.Coherent) (hb : b.Coherent) :
    a.sortedKeys = b.sortedKeys := by
  obtain ⟨u, hu, rfl⟩ := h
  have hrebuild : a.table.rebuild a.layout a.ordering = u.rebuild a.layout a.ordering := by
    rw [TallyTable.FilledAlike] at hu
    simp only [TallyTable.rebuild, hu]
  have hfresh : a.rebuilt = ({ a with table := u } : Aggregator).rebuilt := by
    simp only [rebuilt, hrebuild]
  rcases a.sortedKeys_cases with ⟨kept, hkept, hcurrent, hsame⟩ | ⟨hstale, hsame⟩
  · -- The order is of this generation, so both tables have their derived values already.
    have hfilled := ha.rebuild_eq kept hkept hcurrent
    have hfilled' : u.rebuild a.layout a.ordering = (u, kept.keys) :=
      hb.rebuild_eq kept hkept hcurrent
    rw [hrebuild, hfilled'] at hfilled
    obtain rfl : u = a.table := (Prod.mk.inj hfilled).1
    rfl
  · rw [hsame, hfresh]
    rcases ({ a with table := u } : Aggregator).sortedKeys_cases with
      ⟨kept, hkept, hcurrent, -⟩ | ⟨-, hsame'⟩
    · exact absurd hcurrent (hstale kept hkept)
    · exact hsame'.symm

/-- Values that agree but for derived ones are added to the same group and counted alike. -/
theorem add (h : SameButDerived a b) (hl : a.layout.Valid) {keys : List Value}
    {values values' : List (Option Value)}
    (hvalues : Derived.AgreeBut a.layout FieldId.derived ⟨keys, values⟩ ⟨keys, values'⟩) :
    SameButDerived (a.add keys values) (b.add keys values') := by
  obtain ⟨u, hu, rfl⟩ := h
  have hfound : (u.find? (Value.keyText keys)).isSome =
      (a.table.find? (Value.keyText keys)).isSome := by
    have hfind := congrArg (fun t => (t.find? (Value.keyText keys)).isSome) hu
    simp only [TallyTable.find?_mapTallies, Option.isSome_map] at hfind
    exact hfind.symm
  rw [add_eq, add_eq]
  dsimp only
  rw [hfound]
  exact ⟨_, hu.addAgreeing hl hvalues, rfl⟩

/-- Contributions that agree but for derived values are added to the same groups and counted
alike. -/
theorem addContribution (h : SameButDerived a b) (hl : a.layout.Valid) {keys : List Value}
    {destination : Option (List Value)} {values values' : List (Option Value)}
    (hvalues : ∀ keys, Derived.AgreeBut a.layout FieldId.derived ⟨keys, values⟩ ⟨keys, values'⟩) :
    SameButDerived (a.addContribution ⟨keys, destination, values⟩)
      (b.addContribution ⟨keys, destination, values'⟩) := by
  have honce : b.pairOnce = a.pairOnce := by
    obtain ⟨u, -, rfl⟩ := h
    rfl
  have hfirst := h.add hl (hvalues keys)
  have hlayout : (a.add keys values).layout = a.layout := by rw [add_eq]
  unfold Aggregator.addContribution
  cases destination with
  | none => exact hfirst
  | some destination =>
    dsimp only
    rw [honce]
    split
    · obtain ⟨u, hu, heq⟩ := hfirst
      rw [heq]
      exact ⟨u, hu, rfl⟩
    · exact hfirst.add (hlayout.symm ▸ hl) (hlayout.symm ▸ hvalues destination)

/-- Agreeing records are both written, and leave a difference in derived values at most. -/
theorem write (h : SameButDerived a b) (hl : a.layout.Valid) {r s : Record}
    (hrs : r.AgreesUnder a.layout s) :
    SameButDerived (a.write r).1 (b.write s).1 ∧ (a.write r).2 = (b.write s).2 := by
  have hlayout : b.layout = a.layout := by
    obtain ⟨u, -, rfl⟩ := h
    rfl
  have hkeys : ∀ side, a.layout.key.map (r.keyOf side) = a.layout.key.map (s.keyOf side) :=
    fun side => List.map_congr_left fun c hc =>
      hrs.keyOf_eq hc (hl.fromCatalog c (List.mem_append_left _ hc)) side
  have hvalues : ∀ keys, Derived.AgreeBut a.layout FieldId.derived
      ⟨keys, a.layout.value.map r.valueOf⟩ ⟨keys, a.layout.value.map s.valueOf⟩ := by
    refine fun keys => ⟨rfl, by simp only [List.length_map], fun i hi => ?_⟩
    rw [List.getElem?_map, List.getElem?_map]
    cases hc : a.layout.value[i]? with
    | none => rfl
    | some c =>
      have hmem := List.mem_of_getElem? hc
      have hcatalog := hl.fromCatalog c (List.mem_append_right _ hmem)
      rw [Option.map_some, Option.map_some,
        hrs.valueOf_eq hmem hcatalog (decide_eq_false (hi c hc))]
  have hcontribution := contribution_eq hl hrs.left
  have hcontribution' := contribution_eq (hlayout.symm ▸ hl) hrs.right
  rw [hlayout, ← hkeys, ← hkeys] at hcontribution'
  unfold Aggregator.write
  rw [hcontribution, hcontribution']
  refine ⟨?_, rfl⟩
  obtain ⟨u, hu, heq⟩ := h.addContribution hl hvalues
  dsimp only
  rw [heq]
  exact ⟨u, hu, rfl⟩

/-- Reading cannot tell coherent aggregations that differ in derived values at most. -/
theorem readsAlike :
    ReadsAlike fun a b => a.Coherent ∧ b.Coherent ∧ SameButDerived a b where
  layout_eq h := by
    obtain ⟨-, -, u, -, rfl⟩ := h
    rfl
  size_eq h := by
    obtain ⟨-, -, u, hu, rfl⟩ := h
    exact hu.size_eq
  filled_eq {R} _ {a b} c out h := by
    obtain ⟨ha, hb, hab⟩ := h
    have hsorted := hab.sortedKeys_eq ha hb
    obtain ⟨u, hu, rfl⟩ := hab
    have hempty : a.table.isEmpty = u.isEmpty := by
      rw [TallyTable.isEmpty_eq, TallyTable.isEmpty_eq, hu.size_eq]
    exact materialize_congr (a := a) (b := { a with table := u }) rfl hempty
      (congrArg (·.1.table) hsorted) (congrArg Prod.snd hsorted) c out
  materialize {R} _ {a b} c out h := by
    obtain ⟨ha, hb, hab⟩ := h
    refine ⟨ha.read (readsTo_materialize a c out), hb.read (readsTo_materialize b c out), ?_⟩
    have hsorted := hab.sortedKeys_eq ha hb
    obtain ⟨u, hu, rfl⟩ := hab
    rw [materialize_fst, materialize_fst, TallyTable.isEmpty_eq, TallyTable.isEmpty_eq, hu.size_eq]
    split
    · rw [hsorted]
      exact refl _
    · exact ⟨u, hu, rfl⟩

end SameButDerived

/-- Alike operations on coherent aggregations that differ in derived values at most give the same
answer and keep the difference to derived values. -/
theorem SameButDerived.step {a b : Aggregator} {op op' : Operation} (h : SameButDerived a b)
    (ha : a.Coherent) (hb : b.Coherent) (hop : Operation.Alike a.layout op op') :
    a.answer op = b.answer op' ∧ SameButDerived (a.step op) (b.step op') ∧
      (a.step op).layout = a.layout := by
  cases hop with
  | write hrs =>
    obtain ⟨hsame, hanswer⟩ := h.write ha.valid hrs
    exact ⟨congrArg Answer.done hanswer, hsame, (a.write_keeps _).1⟩
  | read hread =>
    have hab : a.Coherent ∧ b.Coherent ∧ SameButDerived a b := ⟨ha, hb, h⟩
    have hlayout : (a.step op).layout = a.layout := (a.readsTo_step hread).keeps.1
    cases op with
    | firstPosition =>
      exact ⟨congrArg Answer.position (readsAlike.firstPosition_eq hab), h, hlayout⟩
    | nextPosition c =>
      exact ⟨congrArg Answer.position (readsAlike.nextPosition_eq hab c), h, hlayout⟩
    | materialize c out =>
      have hfilled := readsAlike.filled_eq c out hab
      exact ⟨by simp only [answer, hfilled], (readsAlike.materialize c out hab).2.2, hlayout⟩
    | report format limit =>
      obtain ⟨hreport, -, -, hsame⟩ := readsAlike.report hab format limit
      exact ⟨congrArg Answer.reported hreport, hsame, hlayout⟩
    | _ => cases hread

/-- Alike runs give the same answers and keep the difference to derived values. -/
theorem SameButDerived.run {a b : Aggregator} {ops ops' : List Operation}
    (h : SameButDerived a b) (ha : a.Coherent) (hb : b.Coherent)
    (hops : List.Forall₂ (Operation.Alike a.layout) ops ops') :
    a.answers ops = b.answers ops' ∧ SameButDerived (a.run ops) (b.run ops') := by
  induction ops generalizing a b ops' with
  | nil =>
    cases hops
    exact ⟨rfl, h⟩
  | cons op rest ih =>
    cases hops with
    | cons hop hrest =>
      obtain ⟨hanswer, hsame, hlayout⟩ := h.step ha hb hop
      obtain ⟨hanswers, hrun⟩ := ih hsame (ha.step op) (hb.step _) (hlayout.symm ▸ hrest)
      exact ⟨by rw [answers, answers, hanswer, hanswers], hrun⟩

/-- Only the raw fields of the columns matter. From any reachable state, two lists of operations
that read alike and write records that agree in the fields they are grouped by and in the merged
fields that are not derived give the same answers one by one; asking for the order then leads to
the same state with the same groups and gives the same keys; before it the counters and all else
that is shown are the same, and so are all answers from there on. In particular, a record may carry
any value in a merged derived field. -/
theorem Reachable.answers_of_agreeing {a : Aggregator} (ha : a.Reachable)
    {ops ops' : List Operation} (h : List.Forall₂ (Operation.Alike a.layout) ops ops') :
    let b := a.run ops
    let b' := a.run ops'
    a.answers ops = a.answers ops' ∧ b.sortedKeys = b'.sortedKeys ∧ b.status = b'.status ∧
      (∀ rest, b.answers rest = b'.answers rest) ∧
      ∀ (r s : Record) (f : FieldId) (v : Value), f ∈ a.layout.value.map (·.field) →
        f.isDerived = true → r.set f v = .ok s →
          Operation.Alike a.layout (.write r) (.write s) := by
  intro b b'
  obtain ⟨hanswers, hsame⟩ := (SameButDerived.refl a).run ha.coherent ha.coherent h
  have hb : b.Reachable := run_induction ha fun _ op _ hc => hc.step op
  have hb' : b'.Reachable := run_induction ha fun _ op _ hc => hc.step op
  have hsorted : b.sortedKeys = b'.sortedKeys := hsame.sortedKeys_eq hb.coherent hb'.coherent
  obtain ⟨u, hu, heq⟩ : SameButDerived b b' := hsame
  refine ⟨hanswers, hsorted, ?_, ?_, fun r s f v hf hderived hset =>
    .write (.of_set ha.coherent.valid hf hderived hset)⟩
  · rw [heq]
    simp only [status, groupCount, hu.size_eq]
  · have hchanges : SameChanges b b' := by
      rw [heq] at hb' ⊢
      exact ⟨rfl, rfl, rfl, hu, rfl, hb, hb'⟩
    exact SameChanges.indistinct.answers_eq hchanges

/-- A flow of two seconds from a port that carries a duration and a rate of its own. -/
def carryingRecord (bytes millis : UInt64) (rate : Binary64) : Record :=
  (fillRecord (portRecord 53 bytes) [(.duration, .u64 millis), (.bitRate, .f64 rate)]).1

/-- A run that writes two flows that carry a duration and a rate, and reads between them. -/
def carryingRun (millis : UInt64) (rate : Binary64) : List Operation :=
  [.write (carryingRecord 100 millis rate), .materialize ⟨0⟩ Record.empty,
   .write (carryingRecord 300 millis rate)]

/-- Flows of a port that carry one duration and rate or another leave different groups, and yet the
same is shown. -/
theorem answers_carryingRun :
    let a := (new 2 TallyTable.polynomialSpread).run
      [.configure ⟨.srcPort, .key, .none, 0, 0⟩, .configure ⟨.bitRate, .auto, .desc, 0, 0⟩]
    let ops := carryingRun 7 (.ofUInt64 5)
    let ops' := carryingRun 11 .zero
    List.Forall₂ (Operation.Alike a.layout) ops ops' ∧
      (a.run ops).table.find? "w:53;" ≠ (a.run ops').table.find? "w:53;" ∧
      (a.run ops).sortedKeys = (a.run ops').sortedKeys ∧
      a.answers (ops ++ [.report .table 0]) = a.answers (ops' ++ [.report .table 0]) := by
  intro a ops ops'
  have hreachable : a.Reachable := ⟨2, TallyTable.polynomialSpread, _, rfl⟩
  have hagree : ∀ bytes ∈ [100, 300], (carryingRecord bytes 7 (.ofUInt64 5)).AgreesUnder a.layout
      (carryingRecord bytes 11 .zero) := by
    intro bytes hbytes
    rcases List.mem_pair.mp hbytes with rfl | rfl
    · exact ⟨by decide +kernel, by decide +kernel, by decide +kernel, by decide +kernel⟩
    · exact ⟨by decide +kernel, by decide +kernel, by decide +kernel, by decide +kernel⟩
  have halike : List.Forall₂ (Operation.Alike a.layout) ops ops' :=
    .cons (.write (hagree 100 (by simp))) (.cons (.read rfl)
      (.cons (.write (hagree 300 (by simp))) .nil))
  have hreport : List.Forall₂ (Operation.Alike a.layout) (ops ++ [.report .table 0])
      (ops' ++ [.report .table 0]) :=
    List.rel_append halike (.cons (.read rfl) .nil)
  exact ⟨halike, by decide +kernel, (hreachable.answers_of_agreeing halike).2.1,
    (hreachable.answers_of_agreeing hreport).1⟩

end Aggregator

end FlowTally
