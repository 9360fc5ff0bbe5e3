import FlowTally.Proofs.Aggregator.Counting
import FlowTally.Proofs.Aggregator.Fit
import FlowTally.Proofs.Aggregator.Grouping
import FlowTally.Proofs.Aggregator.Kept
import FlowTally.Proofs.Record.Mirror
import FlowTally.Proofs.Value.KeyText

/-!
# The directions of a record leave no trace

Where records are grouped by pairs and no column tells the source of a record from its destination,
a record and its mirror image bring the same two shares in the other order. If the two sides have
different keys they belong to different groups, and the additions commute, whatever the merges are.
If they have one key they are the same share: the columns of pairs hold neither floating-point
numbers nor points in time, and all other columns read the same on both sides.
-/

namespace FlowTally

/-- The other side of a record. -/
def Side.opposite : Side → Side
  | .plain => .plain
  | .source => .destination
  | .destination => .source

/-- Records are grouped by pairs, and no column tells a side. -/
structure Layout.Sideless (l : Layout) : Prop where
  /-- A pair is grouped by. -/
  pair : ∃ c ∈ l.key, c.field.isPair = true
  /-- No member of a pair is grouped by. -/
  key : ∀ c ∈ l.key, c.field.isMember = false
  /-- No pair and no member of a pair is merged. -/
  value : ∀ c ∈ l.value, c.field.isPair = false ∧ c.field.isMember = false

/-- Records count for both directions. -/
theorem Layout.Sideless.isBidirectional {l : Layout} (h : l.Sideless) :
    l.isBidirectional = true := List.any_eq_true.mpr h.pair

namespace FieldId

/-- What is read for a field on one side is the opposite of what is read on the other, and is no
pair. -/
theorem opposite_resolve {f : FieldId} (h : f.isMember = false) {side : Side}
    (hside : side ≠ .plain) :
    (side.resolve f).opposite = side.opposite.resolve f ∧ (side.resolve f).isPair = false := by
  cases hpair : f.isPair with
  | false =>
    rw [resolve_of_isPair hpair, resolve_of_isPair hpair, opposite_of_isMember h]
    exact ⟨rfl, hpair⟩
  | true =>
    obtain ⟨⟨source, destination⟩, hmembers⟩ := Option.isSome_iff_exists.mp hpair
    have hmem := mem_pairs_of_members? hmembers
    obtain ⟨⟨-, hsource⟩, -, hdestination⟩ := pairs_types _ hmem
    obtain ⟨hopposite, hopposite'⟩ := opposite_members _ hmem
    unfold Side.resolve
    rw [hmembers]
    cases side with
    | plain => exact absurd rfl hside
    | source => exact ⟨hopposite, hsource⟩
    | destination => exact ⟨hopposite', hdestination⟩

end FieldId

namespace Record

/-- The image has on one side the key value that the record has on the other. -/
theorem keyOf_mirror (r : Record) {c : Column} (hc : c.field.isMember = false) {side : Side}
    (hside : side ≠ .plain) : r.mirror.keyOf side c = r.keyOf side.opposite c := by
  obtain ⟨hopposite, hpair⟩ := FieldId.opposite_resolve hc hside
  have hpair' : (side.opposite.resolve c.field).isPair = false := by
    rw [← hopposite, (FieldId.type_opposite _).2, hpair]
  rw [keyOf, keyOf, cellOf_of_isPair hpair, cellOf_of_isPair hpair', lookup_mirror, hopposite]

/-- The image has the merged values of the record. -/
theorem valueOf_mirror (r : Record) {c : Column} (hpair : c.field.isPair = false)
    (hmember : c.field.isMember = false) : r.mirror.valueOf c = r.valueOf c := by
  rw [valueOf, valueOf, cellOf_of_isPair hpair, lookup_mirror, FieldId.opposite_of_isMember hmember]

/-- Sides with one key have the same key values: a column that is no pair reads the same on both,
and one that is a pair holds neither floating-point numbers nor points in time. -/
theorem keyOf_eq_of_keyText (r : Record) {columns : List Column}
    (hcolumns : ∀ c ∈ columns, c.FromCatalog)
    (h : Value.keyText (columns.map (r.keyOf .destination)) =
      Value.keyText (columns.map (r.keyOf .source))) :
    columns.map (r.keyOf .destination) = columns.map (r.keyOf .source) := by
  have hagrees := Value.agrees_of_keyText h
  rw [List.forall₂_map_left_iff, List.forall₂_map_right_iff, List.forall₂_same] at hagrees
  apply List.map_congr_left
  intro c hc
  cases hpair : c.field.isPair with
  | false => exact r.keyOf_of_isPair hpair .destination .source
  | true =>
    have htype := FieldId.type_of_isPair hpair
    rw [(hcolumns c hc).type_eq, ← r.type_keyOf .destination (hcolumns c hc)] at htype
    exact (hagrees c hc).eq_of_type_ne (htype.1 ∘ congrArg some) (htype.2 ∘ congrArg some)

end Record

/-- Groups of different keys are counted in any order. -/
theorem Counters.count_comm (c : Counters) (x y : Added) :
    (c.count x).count y = (c.count y).count x := by
  cases x <;> cases y <;> rfl

/-- Shares with different keys are added in any order. -/
theorem TallyTable.Placed.addShare_comm {t : TallyTable} (h : t.Placed) (columns : List Column)
    {s u : Share} (hne : s.key ≠ u.key) :
    (t.addShare columns s).addShare columns u = (t.addShare columns u).addShare columns s := by
  have hkeeps := t.addShares_keeps columns [s, u]
  have hkeeps' := t.addShares_keeps columns [u, s]
  apply ((h.addShare columns s).addShare columns u).ext ((h.addShare columns u).addShare columns s)
  · exact hkeeps.1.trans hkeeps'.1.symm
  · exact hkeeps.2.trans hkeeps'.2.symm
  · intro key
    simp only [find?_addShare, if_neg hne, if_neg hne.symm]
    by_cases hs : key = s.key
    · rw [if_pos hs, if_neg (fun hu => hne (hs.symm.trans hu)), if_pos hs]
    · rw [if_neg hs, if_neg hs]

namespace Aggregator

variable {a : Aggregator}

/-- Additions to different groups commute, in the groups as in the counters. -/
theorem add_comm_of_ne (h : a.table.Placed) {keys keys' : List Value}
    (values values' : List (Option Value)) (hne : Value.keyText keys ≠ Value.keyText keys') :
    (a.add keys values).add keys' values' = (a.add keys' values').add keys values := by
  have hshares := h.addShare_comm a.layout.value (s := ⟨keys, values⟩) (u := ⟨keys', values'⟩) hne
  have hother : ∀ s : Share, ∀ key, key ≠ s.key →
      (a.table.addShare a.layout.value s).find? key = a.table.find? key := by
    intro s key hkey
    rw [TallyTable.find?_addShare, if_neg hkey]
  have hfirst := hother ⟨keys, values⟩ (Value.keyText keys') hne.symm
  have hsecond := hother ⟨keys', values'⟩ (Value.keyText keys) hne
  simp only [add_eq, hshares, hfirst, hsecond]
  rw [Counters.count_comm]

/-- What the sides contribute does not depend on which is the source. -/
theorem addContribution_swap (h : a.table.Placed) {source destination : List Value}
    (values : List (Option Value))
    (hsame : Value.keyText destination = Value.keyText source → destination = source) :
    a.addContribution ⟨destination, some source, values⟩ =
      a.addContribution ⟨source, some destination, values⟩ := by
  by_cases hkey : Value.keyText destination = Value.keyText source
  · rw [hsame hkey]
  · have hkey' : Value.keyText source ≠ Value.keyText destination := Ne.symm hkey
    simp only [addContribution, hkey, hkey', decide_false, Bool.and_false, Bool.false_eq_true,
      if_false]
    exact add_comm_of_ne h values values hkey

/-- A record is written as its mirror image is. -/
theorem write_mirror (h : a.Reachable) (hl : a.layout.Sideless) (r : Record) :
    a.write r.mirror = a.write r := by
  have hvalid := h.coherent.valid
  have hcatalog : ∀ c ∈ a.layout.key, c.FromCatalog :=
    fun c hc => hvalid.fromCatalog c (List.mem_append_left _ hc)
  unfold write
  cases ha : r.allocated with
  | false =>
    have himage : r.mirror.allocated = false := ha
    rw [contribution_of_unallocated a ha, contribution_of_unallocated a himage]
  | true =>
    have himage : r.mirror.allocated = true := ha
    have hsource : a.layout.key.map (r.mirror.keyOf .source) =
        a.layout.key.map (r.keyOf .destination) :=
      List.map_congr_left fun c hc => r.keyOf_mirror (hl.key c hc) (by decide)
    have hdestination : a.layout.key.map (r.mirror.keyOf .destination) =
        a.layout.key.map (r.keyOf .source) :=
      List.map_congr_left fun c hc => r.keyOf_mirror (hl.key c hc) (by decide)
    have hvalues : a.layout.value.map r.mirror.valueOf = a.layout.value.map r.valueOf :=
      List.map_congr_left fun c hc => r.valueOf_mirror (hl.value c hc).1 (hl.value c hc).2
    rw [contribution_eq hvalid ha, contribution_eq hvalid himage]
    simp only [hl.isBidirectional, if_true, hsource, hdestination, hvalues]
    rw [addContribution_swap h.placed _ (r.keyOf_eq_of_keyText hcatalog)]

/-- The directions of the records leave no trace. Where records are grouped by pairs and no column
tells a side, writing the mirror images of some records instead of the records leads to the same
aggregation: the same groups, hence the same results in the same order, and the same counters. -/
theorem Reachable.writeAll_mirror (h : a.Reachable) (hl : a.layout.Sideless) (rs : List Record) :
    a.writeAll (rs.map Record.mirror) = a.writeAll rs := by
  induction rs generalizing a with
  | nil => rfl
  | cons r rest ih =>
    have hlayout := (a.write_keeps r).1
    have hrest := ih (h.step (.write r)) (hlayout.symm ▸ hl)
    rw [List.map_cons, writeAll, writeAll, List.foldl_cons, List.foldl_cons, write_mirror h hl]
    exact hrest

/-- The address of an exporting router, of which the first that comes is kept. -/
def routerField : FieldId := ⟨0x2b⟩

/-- Columns that group by the networks of both addresses, keep a router and sum up the bytes. -/
def routedColumns : List Operation :=
  [.setPairOnce true, .configure ⟨.addr, .key, .none, 24, 64⟩,
   .configure ⟨routerField, .min, .none, 0, 0⟩, .configure ⟨.bytes, .auto, .desc, 0, 0⟩]

/-- A record without a destination. -/
def oneWayRecord : Record :=
  (fillRecord Record.empty [(.srcAddr, .addr (.v4 0xc0a80105)),
    (routerField, .addr (.v4 0x01010101)), (.bytes, .u64 100)]).1

/-- A record within one network. -/
def innerRecord : Record :=
  (fillRecord Record.empty [(.srcAddr, .addr (.v4 0xc0a80106)), (.dstAddr, .addr (.v4 0xc0a80107)),
    (routerField, .addr (.v4 0x02020202)), (.bytes, .u64 50)]).1

/-- Two records and their mirror images, which are others, keep the same router for the network
that both records are in. -/
theorem writeAll_mirror_routedColumns :
    let a := (new 3 TallyTable.polynomialSpread).run routedColumns
    let rs := [oneWayRecord, innerRecord]
    a.layout.Sideless ∧ rs.map Record.mirror ≠ rs ∧
      a.writeAll (rs.map Record.mirror) = a.writeAll rs ∧
      (a.writeAll (rs.map Record.mirror)).counters.pairsSkipped = 1 ∧
      ((a.writeAll (rs.map Record.mirror)).table.find? "a:192.168.1.0;").map Tally.values =
        some [some (.addr (.v4 0x01010101)), some (.u64 150)] := by
  intro a rs
  have hsideless : a.layout.Sideless :=
    ⟨⟨a.layout.key.head (by decide +kernel), by decide +kernel, by decide +kernel⟩,
      by decide +kernel, by decide +kernel⟩
  have hsame := Reachable.writeAll_mirror ⟨3, _, _, rfl⟩ hsideless rs
  refine ⟨hsideless, by decide +kernel, hsame, ?_, ?_⟩
  · decide +kernel
  · decide +kernel

end Aggregator

end FlowTally
