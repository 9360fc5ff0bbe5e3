import FlowTally.Proofs.Aggregator.Grouping
import FlowTally.Proofs.Aggregator.Walk
import FlowTally.Proofs.Record.Line
import FlowTally.Proofs.Value.KeyText

/-!
# The objects of two groups differ

The key of a group is one text of its key values and the object of its row another one. Two groups
have different keys, so they have different values in a key column, and the member of that column
is written differently for them. It takes three things. The column shows the value of the group,
which it does if no other column writes its cell. The values are not two points in time in one
millisecond. And numbers are finite and points in time settled, which they are in all records that
were read from lines.
-/

namespace FlowTally

/-- Whether a record that an operation writes was read from a line. -/
def Operation.OnLines : Operation → Prop
  | @write _ _ r => ∃ line, ∃ s : Record, Record.ofLine line = .ok s ∧ write r = write s
  | _ => True

/-- A record that was read from a line is one of this library. -/
theorem Operation.OnLines.onRecords {op : Operation} (h : op.OnLines) : op.OnRecords := by
  cases op with
  | write r =>
    obtain ⟨_, s, -, hs⟩ := h
    exact ⟨s, hs⟩
  | _ => trivial

/-- A truncated value is regular if the value is. -/
theorem Value.IsRegular.truncate {v : Value} (h : v.IsRegular) (v4Bits v6Bits : UInt8) :
    (v.truncate v4Bits v6Bits).IsRegular := by
  cases v with
  | f64 x => exact h
  | timestamp t => exact h
  | _ => trivial

/-- The zero of a type is regular. -/
theorem ValueType.isRegular_zero (type : ValueType) : type.zero.IsRegular := by
  cases type with
  | f64 => exact show Binary64.zero.isFinite = true by decide
  | timestamp => exact show Instant.epoch.IsSettled by decide
  | _ => trivial

/-- The key values of a record with regular values are regular. -/
theorem Layout.isRegular_of_keyValues {r : Record} (hr : r.HoldsRegular) {side : Side}
    {columns : List Column} {vs : List Value} (h : keyValues r side columns = .ok vs) :
    ∀ v ∈ vs, v.IsRegular := by
  induction columns generalizing vs with
  | nil =>
    obtain rfl : [] = vs := Except.ok.inj h
    exact fun v hv => absurd hv List.not_mem_nil
  | cons c rest ih =>
    have hone : ∀ {v}, keyValue r side c = .ok v → v.IsRegular := by
      intro v hv
      unfold keyValue at hv
      split at hv
      · next w hw =>
        obtain rfl := Except.ok.inj hv
        exact (hr.of_get hw).truncate _ _
      · obtain rfl := Except.ok.inj hv
        exact (ValueType.isRegular_zero _).truncate _ _
      · cases hv
    unfold keyValues at h
    split at h
    · cases h
    · next v hv =>
      split at h
      · cases h
      · next tail htail =>
        obtain rfl := Except.ok.inj h
        intro w hw
        rcases List.mem_cons.mp hw with rfl | hw
        · exact hone hv
        · exact ih htail w hw

/-- The values of two groups in each key column. -/
def Layout.keyPairs (l : Layout) (s t : Tally) : List (Column × Value × Value) :=
  l.key.zip (s.keys.zip t.keys)

/-- The values of two groups in a key column are those of each of them. -/
theorem Layout.mem_zip_of_mem_keyPairs {l : Layout} {s t : Tally} {c : Column} {v w : Value}
    (h : (c, v, w) ∈ l.keyPairs s t) : (c, v) ∈ l.key.zip s.keys ∧ (c, w) ∈ l.key.zip t.keys := by
  obtain ⟨n, hn, hget⟩ := List.mem_iff_getElem.mp h
  simp only [keyPairs, List.length_zip] at hn
  simp only [keyPairs, List.getElem_zip, Prod.mk.injEq] at hget
  obtain ⟨rfl, rfl, rfl⟩ := hget
  constructor
  · exact List.mem_iff_getElem.mpr ⟨n, by rw [List.length_zip]; omega, List.getElem_zip⟩
  · exact List.mem_iff_getElem.mpr ⟨n, by rw [List.length_zip]; omega, List.getElem_zip⟩

namespace Ledger

/-- The key values of the shares are regular. -/
def HoldsRegular (b : Ledger) : Prop := ∀ s ∈ b.shares, ∀ v ∈ s.keys, v.IsRegular

/-- An operation on lines keeps the key values regular. -/
theorem HoldsRegular.step {b : Ledger} (h : b.HoldsRegular) {op : Operation} (hop : op.OnLines) :
    (b.step op).HoldsRegular := by
  cases op with
  | configure r =>
    simp only [Ledger.step]
    cases b.layout.configure r with
    | none => exact h
    | some l =>
      intro s hs
      dsimp only at hs
      split at hs
      · exact h s hs
      · exact absurd hs List.not_mem_nil
  | write r =>
    obtain ⟨line, s, hline, hs⟩ := hop
    rw [hs]
    intro t ht
    rcases List.mem_append.mp ht with ht | ht
    · exact h t ht
    · obtain ⟨⟨side, hkeys⟩, -⟩ := Layout.exists_side_of_mem_shares ht
      exact Layout.isRegular_of_keyValues (Record.holdsRegular_of_ofLine hline) hkeys
  | clear => exact fun s hs => absurd hs List.not_mem_nil
  | _ => exact h

/-- Operations on lines keep the key values regular. -/
theorem HoldsRegular.run {b : Ledger} (h : b.HoldsRegular) {ops : List Operation}
    (hops : ∀ op ∈ ops, op.OnLines) : (b.run ops).HoldsRegular := by
  induction ops generalizing b with
  | nil => exact h
  | cons op rest ih =>
    exact ih (h.step (hops op List.mem_cons_self)) fun o ho => hops o (List.mem_cons_of_mem op ho)

end Ledger

namespace Aggregator

/-- The states that operations lead to when the written records were read from lines. -/
def LineReachable (a : Aggregator) : Prop :=
  ∃ shards spread ops, (∀ op ∈ ops, Operation.OnLines op) ∧ (new shards spread).run ops = a

section

variable {a : Aggregator} {i j : Nat} {d e : String × Tally}

/-- Records that were read from lines are records of this library. -/
theorem LineReachable.recordReachable (h : a.LineReachable) : a.RecordReachable := by
  obtain ⟨n, spread, ops, hops, rfl⟩ := h
  exact ⟨n, spread, ops, fun op hop => (hops op hop).onRecords, rfl⟩

/-- The key values of the groups of lines are regular. -/
theorem LineReachable.isRegular_of_keys (h : a.LineReachable)
    (hgroup : (a.table.ordered a.layout a.ordering)[i]? = some d) : ∀ v ∈ d.2.keys, v.IsRegular := by
  have hplaced := h.recordReachable.sound.placed
  obtain ⟨n, spread, ops, hops, rfl⟩ := h
  have hfollows := (Follows.new n spread).run ops
  have hregular : (Ledger.empty.run ops).HoldsRegular :=
    Ledger.HoldsRegular.run (fun s hs => absurd hs List.not_mem_nil) hops
  have hfound := hplaced.mem_ordered_iff.mp (List.mem_of_getElem? hgroup)
  obtain ⟨old, hold, hfill⟩ := Option.map_eq_some_iff.mp hfound
  obtain ⟨s, hs, hkeys⟩ := Option.map_eq_some_iff.mp (hfollows.sumsUp.sumOf d.1 old hold).keys_eq
  rw [← hfill, Derived.keys_fill, ← hkeys]
  exact hregular s (List.mem_filter.mp (List.mem_of_head? hs)).1

/-- The name of a group is the text of its key values. -/
theorem Sound.key_of_ordered (h : a.Sound)
    (hgroup : (a.table.ordered a.layout a.ordering)[i]? = some d) : d.1 = Value.keyText d.2.keys := by
  have hfound := h.placed.mem_ordered_iff.mp (List.mem_of_getElem? hgroup)
  obtain ⟨old, hold, hfill⟩ := Option.map_eq_some_iff.mp hfound
  rw [h.fits.key_eq d.1 old hold, ← hfill, Derived.keys_fill]

/-- Two groups have different values in a key column. -/
theorem Sound.exists_not_agrees (h : a.Sound) (hij : i ≠ j)
    (hd : (a.table.ordered a.layout a.ordering)[i]? = some d)
    (he : (a.table.ordered a.layout a.ordering)[j]? = some e) :
    ∃ c v w, (c, v, w) ∈ a.layout.keyPairs d.2 e.2 ∧ ¬v.Agrees w := by
  by_contra hnone
  have hdkeys := (h.fits_of_ordered hd).keys.length_eq
  have hekeys := (h.fits_of_ordered he).keys.length_eq
  have hagrees : List.Forall₂ Value.Agrees d.2.keys e.2.keys := by
    refine List.forall₂_iff_zip.mpr ⟨hdkeys.symm.trans hekeys, fun {v w} hmem => ?_⟩
    by_contra hdiffer
    obtain ⟨n, hn, hget⟩ := List.mem_iff_getElem.mp hmem
    have hlt : n < a.layout.key.length := by
      rw [List.length_zip] at hn
      omega
    refine hnone ⟨a.layout.key[n], v, w, ?_, hdiffer⟩
    refine List.mem_iff_getElem.mpr ⟨n, by rw [Layout.keyPairs, List.length_zip]; omega, ?_⟩
    simp only [Layout.keyPairs, List.getElem_zip, hget]
  have hkey : d.1 = e.1 := by
    rw [h.key_of_ordered hd, h.key_of_ordered he, Value.keyText_congr hagrees]
  have hnames : ((a.table.ordered a.layout a.ordering).map (·.1))[i]? =
      ((a.table.ordered a.layout a.ordering).map (·.1))[j]? := by
    rw [List.getElem?_map, List.getElem?_map, hd, he, Option.map_some, Option.map_some, hkey]
  have hlt : i < ((a.table.ordered a.layout a.ordering).map (·.1)).length := by
    rw [List.length_map]
    exact (List.getElem?_eq_some_iff.mp hd).1
  exact hij ((List.getElem?_inj hlt h.placed.nodup_ordered).mp hnames)

/-- The object of each row, in the order of the results. -/
def objects (a : Aggregator) : List Json := a.rows.map fun r => FlowRecord.object r a.layout.fields

/-- The record of a group that fits is readable in all columns. -/
theorem readable_record (hl : a.layout.Valid) {t : Tally} (ht : t.Fits a.layout) {f : FieldId}
    (hf : f ∈ a.layout.fields) : FlowRecord.Readable (t.record a.layout) f := by
  obtain ⟨-, hallocated, -⟩ := record_spec hl ht
  have hget := Record.get_eq hallocated (hl.type_isSome hf)
  cases hcell : Assoc.lookup (Record.cellOf f) (t.record a.layout).cells with
  | none => exact .inr ⟨f, by rw [hcell] at hget; exact hget⟩
  | some v => exact .inl ⟨v, by rw [hcell] at hget; exact hget⟩

/-- A row is readable in all columns. -/
theorem Sound.readable (h : a.Sound) {r : Record} (hr : r ∈ a.rows) {f : FieldId}
    (hf : f ∈ a.layout.fields) : FlowRecord.Readable r f := by
  obtain ⟨d, hd, rfl⟩ := List.mem_map.mp hr
  obtain ⟨i, hi⟩ := List.getElem?_of_mem hd
  exact readable_record h.valid (h.fits_of_ordered hi) hf

/-- The lines of rows are their objects. -/
theorem Sound.objectLines_eq (h : a.Sound) {rs : List Record} (hrs : ∀ r ∈ rs, r ∈ a.rows) :
    Report.objectLines a.layout.fields rs = .ok
      ((rs.map fun r => FlowRecord.object r a.layout.fields).flatMap fun j =>
        j.print ++ ['\n']) := by
  induction rs with
  | nil => rfl
  | cons r rest ih =>
    have hobject := FlowRecord.toJson_eq fun f hf => h.readable (hrs r List.mem_cons_self) hf
    rw [Report.objectLines, hobject, ih fun s hs => hrs s (List.mem_cons_of_mem r hs)]
    simp

/-- The walk takes the first rows, as many as the limit allows. -/
theorem Sound.walk_take (h : a.Sound) (hcoherent : a.Coherent) {limit m : Nat}
    (hm : m = if limit = 0 then a.groupCount else min limit a.groupCount) :
    (a.walk limit).2 = .ok (a.rows.take m) ∧ (a.rows.take m).length = m := by
  constructor
  · rcases Nat.eq_zero_or_pos a.groupCount with hcount | hcount
    · have hzero : m = 0 := by split at hm <;> omega
      rw [walk, firstPosition_eq, if_pos hcount, hzero]
      rfl
    · rw [walk_eq h hcoherent hm hcount]
  · rw [List.length_take, length_rows]
    split at hm <;> omega

/-- The results in the form of lines are the objects of the first rows. -/
theorem Sound.report_eq (h : a.Sound) (hcoherent : a.Coherent) {limit m : Nat}
    (hm : m = if limit = 0 then a.groupCount else min limit a.groupCount) :
    (a.report .json limit).2 = .ok ⟨m, String.ofList
      ((a.objects.take m).flatMap fun j => j.print ++ ['\n'])⟩ := by
  obtain ⟨hwalk, hlength⟩ := h.walk_take hcoherent hm
  unfold report
  cases hresult : a.walk limit with
  | mk b result =>
    rw [hresult] at hwalk
    obtain rfl : result = .ok (a.rows.take m) := hwalk
    simp only [h.objectLines_eq fun r hr => List.mem_of_mem_take hr, hlength, objects,
      List.map_take]

/-- Without a limit the results of lines are the objects of all rows. -/
theorem LineReachable.report_all (h : a.LineReachable) :
    (a.report .json 0).2 = .ok ⟨a.groupCount, String.ofList
      (a.objects.flatMap fun j => j.print ++ ['\n'])⟩ := by
  have hlength : a.objects.length = a.groupCount := by
    rw [objects, List.length_map, length_rows]
  have hreport := h.recordReachable.sound.report_eq h.recordReachable.reachable.coherent
    (if_pos rfl).symm
  rwa [← hlength, List.take_length, hlength] at hreport

/-- What a column shows of a group is the text of its value, if no other column writes its
cell. -/
theorem Sound.member?_object (h : a.Sound)
    (hgroup : (a.table.ordered a.layout a.ordering)[i]? = some d) {x : Json}
    (hx : a.objects[i]? = some x) {field : FieldId} {v : Value}
    (hmem : (field, some v) ∈ a.layout.slots d.2)
    (halone : ∀ f ∈ a.layout.fields, f ≠ field → Record.cellOf field ∉ f.cells) :
    x.member? field.name = some v.toJson := by
  have hfits := h.fits_of_ordered hgroup
  have hfield : field ∈ a.layout.fields := by
    rw [← hfits.map_fst_slots]
    exact List.mem_map.mpr ⟨_, hmem, rfl⟩
  have hget := (get_record h.valid hfits hmem).2 halone
  rw [objects, rows, List.map_map, List.getElem?_map, hgroup] at hx
  obtain rfl := Option.some.inj hx
  exact FlowRecord.member?_object (fun f hf => h.valid.type_isSome hf) hfield hget

/-- In a key column in which two groups differ by more than what a point in time has below the
millisecond, their objects have different texts, if no other column writes its cell. -/
theorem LineReachable.members_differ (h : a.LineReachable)
    (hd : (a.table.ordered a.layout a.ordering)[i]? = some d)
    (he : (a.table.ordered a.layout a.ordering)[j]? = some e) {x y : Json}
    (hx : a.objects[i]? = some x) (hy : a.objects[j]? = some y) {c : Column} {v w : Value}
    (hmem : (c, v, w) ∈ a.layout.keyPairs d.2 e.2) (hdiffer : v.toMillis ≠ w.toMillis)
    (halone : ∀ f ∈ a.layout.fields, f ≠ c.field → Record.cellOf c.field ∉ f.cells) :
    (x.member? c.field.name).map Json.print ≠ (y.member? c.field.name).map Json.print := by
  intro hsame
  have hsound := h.recordReachable.sound
  obtain ⟨hv, hw⟩ := Layout.mem_zip_of_mem_keyPairs hmem
  have hdslot : (c.field, some v) ∈ a.layout.slots d.2 :=
    List.mem_append_left _ (List.mem_map_of_mem hv)
  have heslot : (c.field, some w) ∈ a.layout.slots e.2 :=
    List.mem_append_left _ (List.mem_map_of_mem hw)
  rw [hsound.member?_object hd hx hdslot halone, hsound.member?_object he hy heslot halone] at hsame
  have htype : v.type = w.type := by
    have hvtype := (hsound.fits_of_ordered hd).type_of_mem_slots hsound.valid hdslot
    have hwtype := (hsound.fits_of_ordered he).type_of_mem_slots hsound.valid heslot
    exact Option.some.inj (hvtype.symm.trans hwtype)
  exact hdiffer (Value.toMillis_eq_of_print htype (h.isRegular_of_keys hd v (List.of_mem_zip hv).2)
    (h.isRegular_of_keys he w (List.of_mem_zip hw).2) (Option.some.inj hsame))

end

/-- Two groups of lines are told apart by their rows. In every state that lines lead to, whatever
was configured, the results are the objects of the first groups. Any two groups have different
values in a key column, and the members of their objects in that column have different texts,
unless the values are points in time in one millisecond or another column writes the cell of that
column. The same holds of every key column in which the two groups differ. -/
theorem LineReachable.objects_differ {a : Aggregator} (h : a.LineReachable) (limit : Nat) :
    let groups := a.table.ordered a.layout a.ordering
    let m := if limit = 0 then a.groupCount else min limit a.groupCount
    (a.report .json limit).2 = .ok ⟨m, String.ofList
      ((a.objects.take m).flatMap fun j => j.print ++ ['\n'])⟩ ∧
    a.objects.length = groups.length ∧
    ∀ (i j : Nat) (d e : String × Tally) (x y : Json), i ≠ j →
      groups[i]? = some d → groups[j]? = some e →
      a.objects[i]? = some x → a.objects[j]? = some y →
      (∃ c v w, (c, v, w) ∈ a.layout.keyPairs d.2 e.2 ∧ ¬v.Agrees w ∧
        ((x.member? c.field.name).map Json.print ≠ (y.member? c.field.name).map Json.print ∨
          (∃ t u, v = .timestamp t ∧ w = .timestamp u ∧ t.toMillis = u.toMillis) ∨
          ∃ f ∈ a.layout.fields, f ≠ c.field ∧ Record.cellOf c.field ∈ f.cells)) ∧
      ∀ c v w, (c, v, w) ∈ a.layout.keyPairs d.2 e.2 → v.toMillis ≠ w.toMillis →
        (∀ f ∈ a.layout.fields, f ≠ c.field → Record.cellOf c.field ∉ f.cells) →
        (x.member? c.field.name).map Json.print ≠ (y.member? c.field.name).map Json.print := by
  intro groups m
  have hsound := h.recordReachable.sound
  refine ⟨hsound.report_eq h.recordReachable.reachable.coherent rfl, ?_, ?_⟩
  · rw [objects, rows, List.length_map, List.length_map]
  intro i j d e x y hij hd he hx hy
  refine ⟨?_, fun c v w hmem => h.members_differ hd he hx hy hmem⟩
  obtain ⟨c, v, w, hmem, hdiffer⟩ := hsound.exists_not_agrees hij hd he
  refine ⟨c, v, w, hmem, hdiffer, ?_⟩
  by_cases halone : ∃ f ∈ a.layout.fields, f ≠ c.field ∧ Record.cellOf c.field ∈ f.cells
  · exact .inr (.inr halone)
  by_cases hmillis : v.toMillis = w.toMillis
  · have hne : v ≠ w := fun heq => hdiffer (heq ▸ Value.Agrees.refl v)
    exact .inr (.inl (Value.exists_timestamps_of_toMillis_eq hmillis hne))
  · exact .inl (h.members_differ hd he hx hy hmem hmillis fun f hf hne hcell =>
      halone ⟨f, hf, hne, hcell⟩)

/-- The write of the record of a line, of an empty record if the line is none. -/
def writeLine (line : String) : Operation :=
  .write ((Record.ofLine line).toOption.getD Record.empty)

/-- Writing the record of a line is an operation on lines. -/
theorem onLines_writeLine {line : String} (h : (Record.ofLine line).toOption.isSome = true) :
    (writeLine line).OnLines :=
  ⟨line, _, Record.ofLine_of_isSome h, rfl⟩

/-- Two lines in one leap second, grouped by their start and a rate. -/
def rateLines : List Operation :=
  [.configure ⟨.first, .key, .none, 0, 0⟩, .configure ⟨.bitRate, .key, .none, 0, 0⟩,
   writeLine "\x7b\"first\":\"2016-12-31T23:59:60.001Z\",\"bps\":0.5\x7d",
   writeLine "\x7b\"first\":\"2016-12-31T23:59:60.001Z\",\"bps\":1e2\x7d"]

/-- The objects of the two lines differ in the rate. -/
theorem objects_differ_rateLines :
    let a := (new 2 TallyTable.polynomialSpread).run rateLines
    a.LineReachable ∧ ∃ x y, a.objects = [x, y] ∧
      (x.member? "bps").map Json.print ≠ (y.member? "bps").map Json.print := by
  intro a
  have hreachable : a.LineReachable := by
    refine ⟨2, TallyTable.polynomialSpread, rateLines, ?_, rfl⟩
    simp only [rateLines, List.forall_mem_cons]
    exact ⟨trivial, trivial, onLines_writeLine (by decide +kernel),
      onLines_writeLine (by decide +kernel), List.forall_mem_nil _⟩
  have hsound := hreachable.recordReachable.sound
  let first : Instant := ⟨1483228799, 1001000000, by decide, by decide, by decide⟩
  let groups : List (String × Tally) :=
    [("t:2016-12-31T23:59:60.001Z;f:0.5;",
      ⟨[.timestamp first, .f64 ⟨0x3fe0000000000000⟩], [none, some (.u64 0), none]⟩),
     ("t:2016-12-31T23:59:60.001Z;f:100;",
      ⟨[.timestamp first, .f64 ⟨0x4059000000000000⟩], [none, some (.u64 0), none]⟩)]
  have hgroups : groups = a.table.ordered a.layout a.ordering :=
    hsound.placed.eq_ordered (by decide +kernel) (by decide +kernel)
  obtain ⟨-, hlength, hdiffer⟩ := hreachable.objects_differ 0
  rw [← hgroups] at hlength hdiffer
  obtain ⟨x, y, hobjects⟩ := List.length_eq_two.mp hlength
  refine ⟨hreachable, x, y, hobjects, ?_⟩
  rw [hobjects] at hdiffer
  exact (hdiffer 0 1 _ _ x y (by decide) rfl rfl rfl rfl).2
    ⟨.bitRate, .key, .none, 0, 0, .f64, .keep⟩ (.f64 ⟨0x3fe0000000000000⟩)
    (.f64 ⟨0x4059000000000000⟩) (by decide +kernel) (by decide) (by decide +kernel)

/-- Lines that are grouped by a port and by the pair that it belongs to. -/
def portLines : List Operation :=
  [.configure ⟨.dstPort, .key, .none, 0, 0⟩, .configure ⟨.port, .key, .none, 0, 0⟩,
   writeLine "\x7b\"srcport\":80,\"dstport\":53\x7d",
   writeLine "\x7b\"srcport\":80,\"dstport\":80\x7d"]

/-- Lines that are grouped by their start, with more places than are written. -/
def instantLines : List Operation :=
  [.configure ⟨.first, .key, .none, 0, 0⟩,
   writeLine "\x7b\"first\":\"2024-01-01T00:00:00.0001Z\"\x7d",
   writeLine "\x7b\"first\":\"2024-01-01T00:00:00.0002Z\"\x7d"]

/-- Two groups have one row where the pair is written over its member, and where two points in
time differ by less than a millisecond. -/
theorem report_repeats_row :
    let a := (new 1 TallyTable.polynomialSpread).run portLines
    let b := (new 1 TallyTable.polynomialSpread).run instantLines
    (a.LineReachable ∧ a.layout.key ≠ [] ∧ a.groupCount = 3 ∧ (a.report .json 0).2 = .ok ⟨3,
      "\x7b\"dstport\":53,\"port\":53\x7d\n" ++ "\x7b\"dstport\":80,\"port\":80\x7d\n" ++
        "\x7b\"dstport\":80,\"port\":80\x7d\n"⟩) ∧
    b.LineReachable ∧ b.layout.key ≠ [] ∧ b.groupCount = 2 ∧ (b.report .json 0).2 = .ok ⟨2,
      "\x7b\"first\":\"2024-01-01T00:00:00.000Z\"\x7d\n" ++
        "\x7b\"first\":\"2024-01-01T00:00:00.000Z\"\x7d\n"⟩ := by
  intro a b
  have ha : a.LineReachable := by
    refine ⟨1, TallyTable.polynomialSpread, portLines, ?_, rfl⟩
    simp only [portLines, List.forall_mem_cons]
    exact ⟨trivial, trivial, onLines_writeLine (by decide +kernel),
      onLines_writeLine (by decide +kernel), List.forall_mem_nil _⟩
  have hb : b.LineReachable := by
    refine ⟨1, TallyTable.polynomialSpread, instantLines, ?_, rfl⟩
    simp only [instantLines, List.forall_mem_cons]
    exact ⟨trivial, onLines_writeLine (by decide +kernel),
      onLines_writeLine (by decide +kernel), List.forall_mem_nil _⟩
  have hports : [("w:53;w:53;", ⟨[.u16 53, .u16 53], []⟩),
      ("w:53;w:80;", ⟨[.u16 53, .u16 80], []⟩), ("w:80;w:80;", ⟨[.u16 80, .u16 80], []⟩)] =
      a.table.ordered a.layout a.ordering :=
    ha.recordReachable.sound.placed.eq_ordered (by decide +kernel) (by decide +kernel)
  let early : Instant := ⟨1704067200, 100000, by decide, by decide, by decide⟩
  let late : Instant := ⟨1704067200, 200000, by decide, by decide, by decide⟩
  have hinstants : [("t:2024-01-01T00:00:00.000100Z;", ⟨[.timestamp early], []⟩),
      ("t:2024-01-01T00:00:00.000200Z;", ⟨[.timestamp late], []⟩)] =
      b.table.ordered b.layout b.ordering :=
    hb.recordReachable.sound.placed.eq_ordered (by decide +kernel) (by decide +kernel)
  have hacount : a.groupCount = 3 := by decide +kernel
  have hbcount : b.groupCount = 2 := by decide +kernel
  refine ⟨⟨ha, by decide +kernel, hacount, ?_⟩, hb, by decide +kernel, hbcount, ?_⟩
  · rw [ha.report_all, hacount, objects, rows, ← hports]
    decide +kernel
  · rw [hb.report_all, hbcount, objects, rows, ← hinstants]
    decide +kernel

end Aggregator

end FlowTally
