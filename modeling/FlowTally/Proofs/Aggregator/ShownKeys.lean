import FlowTally.Proofs.Aggregator.Carried
import FlowTally.Proofs.Aggregator.Objects
import FlowTally.Proofs.Aggregator.WriteOrder

/-!
# What the key columns of a row show

The key values of a group are those of the record that came first, and the group is found under
their text. Values of one text are printed alike in both forms of the results, but for the two
zeros, which keep their signs. A column is read back from its cell, and the key columns come before
the value columns. So the key columns of a row are told by the key of its group, unless the two
zeros meet in one group or a value column that keeps the first value writes over the cell.
-/

namespace FlowTally

/-- Values that agree are printed alike, unless they are zeros with different signs. -/
theorem Value.Agrees.printed_alike {v w : Value} (h : v.Agrees w) :
    v.tableText = w.tableText ∧ v.toJson = w.toJson ∨
      ∃ x y, v = .f64 x ∧ w = .f64 y ∧ x.isZero = true ∧ y.isZero = true ∧ x ≠ y := by
  cases v with
  | f64 x =>
    cases w with
    | f64 y =>
      rcases h with rfl | ⟨hx, hy⟩ | ⟨hx, hy⟩
      · exact .inl ⟨rfl, rfl⟩
      · by_cases hxy : x = y
        · exact .inl ⟨by rw [hxy], by rw [hxy]⟩
        · exact .inr ⟨x, y, rfl, rfl, hx, hy, hxy⟩
      · have hfinite : ∀ z : Binary64, z.isNaN = true → z.isFinite = false := by
          intro z hz
          rw [Binary64.isNaN, decide_eq_true_eq] at hz
          exact decide_eq_false hz.le.not_gt
        refine .inl ⟨?_, ?_⟩
        · simp only [tableText, Binary64.fixedText, hx, hy, if_true]
        · simp only [toJson, hfinite x hx, hfinite y hy, if_neg Bool.false_ne_true]
    | _ => cases h
  | timestamp t =>
    cases w with
    | timestamp u =>
      have htext := Instant.text_congr h
      refine .inl ⟨?_, ?_⟩
      · rw [tableText, tableText, Instant.tableText, Instant.tableText, htext]
      · rw [toJson, toJson, Instant.lineText, Instant.lineText, htext]
    | _ => cases h
  | _ =>
    cases h
    exact .inl ⟨rfl, rfl⟩

/-- Two records show the same for a field in the results: the same text in a table and the same
member in an object of some fields. -/
def Record.ShowAlike (fields : List FieldId) (r s : Record) (f : FieldId) : Prop :=
  (∃ text, Report.cell r f = .ok text ∧ Report.cell s f = .ok text) ∧
    ∃ x y member, FlowRecord.toJson r fields = .ok x ∧ FlowRecord.toJson s fields = .ok y ∧
      x.member? f.name = some member ∧ y.member? f.name = some member

/-- Two records show the two zeros for a field. -/
def Record.ShowZeros (r s : Record) (f : FieldId) : Prop :=
  ∃ x y, r.get f = .ok (.f64 x) ∧ s.get f = .ok (.f64 y) ∧ x.isZero = true ∧ y.isZero = true ∧
    x ≠ y

/-- Lists whose elements are related end with related elements, or are both empty. -/
theorem getLast?_related {α : Type} {R : α → α → Prop} {xs ys : List α}
    (h : List.Forall₂ R xs ys) (hne : xs ≠ []) :
    ∃ x y, xs.getLast? = some x ∧ ys.getLast? = some y ∧ R x y := by
  induction h with
  | nil => exact absurd rfl hne
  | @cons x y xs ys hxy hrest ih =>
    cases hrest with
    | nil => exact ⟨x, y, rfl, rfl, hxy⟩
    | cons hnext hrest =>
      obtain ⟨u, v, hu, hv, huv⟩ := ih (List.cons_ne_nil _ _)
      exact ⟨u, v, by rw [List.getLast?_cons_cons, hu], by rw [List.getLast?_cons_cons, hv], huv⟩

namespace Layout

/-- Key values that agree are written to the same cells. -/
theorem written_keys_agree (cell : FieldId) (columns : List Column) {vs ws : List Value}
    (h : List.Forall₂ Value.Agrees vs ws) :
    List.Forall₂ Value.Agrees
      (Cells.written cell ((columns.zip vs).map fun (c, v) => (c.field, v)))
      (Cells.written cell ((columns.zip ws).map fun (c, w) => (c.field, w))) := by
  induction h generalizing columns with
  | nil => simp [Cells.written]
  | @cons v w vs ws hvw _ ih =>
    cases columns with
    | nil => simp [Cells.written]
    | cons c rest =>
      simp only [List.zip_cons_cons, List.map_cons, Cells.written_cons]
      split
      · exact .cons hvw (ih rest)
      · exact ih rest

/-- Merged values that are the same in all columns that write a cell are written there alike. -/
theorem written_values_congr (cell : FieldId) {columns : List Column} {vs ws : List (Option Value)}
    (hlength : vs.length = ws.length)
    (h : ∀ (n : Nat) (c : Column), columns[n]? = some c → cell ∈ c.field.cells → vs[n]? = ws[n]?) :
    Cells.written cell
        ((columns.zip vs).filterMap fun (c, v) => v.map fun v => (c.field, v)) =
      Cells.written cell
        ((columns.zip ws).filterMap fun (c, w) => w.map fun w => (c.field, w)) := by
  induction columns generalizing vs ws with
  | nil => rfl
  | cons c rest ih =>
    cases vs with
    | nil =>
      obtain rfl := List.length_eq_zero_iff.mp hlength.symm
      rfl
    | cons v vs =>
      cases ws with
      | nil => cases hlength
      | cons w ws =>
        have hrest := ih (Nat.succ.inj hlength) fun n d hd hcell => h (n + 1) d hd hcell
        have hfirst : cell ∈ c.field.cells → v = w := fun hcell => by
          simpa using h 0 c rfl hcell
        simp only [List.zip_cons_cons, List.filterMap_cons]
        by_cases hcell : cell ∈ c.field.cells
        · obtain rfl := hfirst hcell
          cases v with
          | none => exact hrest
          | some v =>
            simp only [Option.map_some, Cells.written_cons, if_pos hcell]
            exact congrArg (v :: ·) hrest
        · cases v <;> cases w <;>
            simp only [Option.map_none, Option.map_some, Cells.written_cons, if_neg hcell] <;>
            exact hrest

end Layout

namespace Aggregator

section

variable {a : Aggregator} {key : String} {t u : Tally}

/-- Groups whose key values agree write values that agree to the cell of a key column, unless a
merged value that is written there differs. -/
theorem written_agrees (cell : FieldId) (ht : t.Fits a.layout) (hu : u.Fits a.layout)
    (hkeys : List.Forall₂ Value.Agrees t.keys u.keys)
    (hvalues : ∀ (n : Nat) (d : Column), a.layout.value[n]? = some d →
      cell ∈ d.field.cells → t.values[n]? = u.values[n]?) :
    List.Forall₂ Value.Agrees (Cells.written cell (assignments a.layout t))
      (Cells.written cell (assignments a.layout u)) := by
  have hlength := ht.values.length_eq.symm.trans hu.values.length_eq
  rw [assignments, assignments, Cells.written_append, Cells.written_append,
    Layout.written_values_congr cell hlength hvalues]
  exact List.rel_append (Layout.written_keys_agree cell a.layout.key hkeys)
    (List.forall₂_same.mpr fun v _ => .refl v)

/-- The record of a group has in a key column the last value that is written to its cell, and there
is one. -/
theorem get_record_of_key (hl : a.layout.Valid) (ht : t.Fits a.layout) {c : Column}
    (hc : c ∈ a.layout.key) :
    Cells.written (Record.cellOf c.field) (assignments a.layout t) ≠ [] ∧
      ∀ v, (Cells.written (Record.cellOf c.field) (assignments a.layout t)).getLast? = some v →
        (t.record a.layout).get c.field = .ok v := by
  obtain ⟨n, hn, rfl⟩ := List.getElem_of_mem hc
  have hn' : n < t.keys.length := ht.keys.length_eq ▸ hn
  have hzip : (a.layout.key[n], t.keys[n]) ∈ a.layout.key.zip t.keys :=
    List.mem_of_getElem? (List.getElem?_zip_eq_some.mpr
      ⟨List.getElem?_eq_getElem hn, List.getElem?_eq_getElem hn'⟩)
  have hslot : (a.layout.key[n].field, t.keys[n]) ∈ assignments a.layout t :=
    List.mem_append_left _ (List.mem_map_of_mem (f := fun (c, v) => (c.field, v)) hzip)
  refine ⟨List.ne_nil_of_mem (a := t.keys[n]) (List.mem_filterMap.mpr ⟨_, hslot, ?_⟩),
    fun v hv => ?_⟩
  · exact if_pos (Record.cellOf_mem_cells _)
  · rw [(get_record hl ht (List.mem_append_left _ (List.mem_map_of_mem hzip))).1, hv]
    rfl

/-- Groups whose key values agree have records that show the same in a key column or the two zeros,
unless a merged value that is written to its cell differs. -/
theorem shown_of_agrees (hl : a.layout.Valid) (ht : t.Fits a.layout) (hu : u.Fits a.layout)
    (hkeys : List.Forall₂ Value.Agrees t.keys u.keys) {c : Column} (hc : c ∈ a.layout.key)
    (hvalues : ∀ (n : Nat) (d : Column), a.layout.value[n]? = some d →
      Record.cellOf c.field ∈ d.field.cells → t.values[n]? = u.values[n]?) :
    Record.ShowAlike a.layout.fields (t.record a.layout) (u.record a.layout) c.field ∨
      Record.ShowZeros (t.record a.layout) (u.record a.layout) c.field := by
  have hfield : c.field ∈ a.layout.fields := List.mem_map_of_mem (List.mem_append_left _ hc)
  have hcatalog : ∀ f ∈ a.layout.fields, f.type?.isSome = true := fun f hf => hl.type_isSome hf
  have hwritten := written_agrees (Record.cellOf c.field) ht hu hkeys hvalues
  obtain ⟨hne, hread⟩ := get_record_of_key hl ht hc
  obtain ⟨x, y, hx, hy, hxy⟩ := getLast?_related hwritten hne
  have hget : (t.record a.layout).get c.field = .ok x := hread x hx
  have hget' : (u.record a.layout).get c.field = .ok y := (get_record_of_key hl hu hc).2 y hy
  rcases hxy.printed_alike with ⟨htext, hjson⟩ | ⟨p, q, rfl, rfl, hp, hq, hpq⟩
  · refine .inl ⟨⟨x.tableText, ?_, ?_⟩, _, _, x.toJson,
      FlowRecord.toJson_eq fun f hf => readable_record hl ht hf,
      FlowRecord.toJson_eq fun f hf => readable_record hl hu hf,
      FlowRecord.member?_object hcatalog hfield hget, ?_⟩
    · rw [Report.cell, hget]
    · rw [Report.cell, hget', htext]
    · rw [FlowRecord.member?_object hcatalog hfield hget', hjson]
  · exact .inr ⟨p, q, hget, hget', hp, hq, hpq⟩

/-- Writing records leads from a state that records lead to to another. -/
theorem RecordReachable.writeAll (h : a.RecordReachable) (rs : List Record) :
    (a.writeAll rs).RecordReachable := by
  obtain ⟨n, spread, ops, hops, rfl⟩ := h
  refine ⟨n, spread, ops ++ rs.map fun r => .write r, fun op hop => ?_, ?_⟩
  · rcases List.mem_append.mp hop with hop | hop
    · exact hops op hop
    · obtain ⟨r, -, rfl⟩ := List.mem_map.mp hop
      exact ⟨r, rfl⟩
  · rw [run, List.foldl_append, List.foldl_map]
    rfl

/-- A group that is found under a key, with its derived values, has a row in the results. -/
theorem RecordReachable.row_of_find (h : a.RecordReachable)
    (hfind : (a.table.mapTallies (Derived.fill a.layout)).find? key = some t) :
    ∃ i : Nat, a.sortedKeys.2[i]? = some key ∧ t.Fits a.layout ∧ Value.keyText t.keys = key ∧
      (a.materialize ⟨i⟩ Record.empty).2 = (t.record a.layout, .ok ()) := by
  have hmem : (key, t) ∈ a.table.ordered a.layout a.ordering := by
    rwa [h.sound.placed.mem_ordered_iff, ← TallyTable.find?_mapTallies]
  obtain ⟨i, hi⟩ := List.getElem?_of_mem hmem
  refine ⟨i, ?_, h.sound.fits_of_ordered hi, (h.sound.key_of_ordered hi).symm, ?_⟩
  · rw [(Prod.mk.inj h.reachable.coherent.sortedKeys_eq).2, ← TallyTable.ordered, List.getElem?_map,
      hi]
    rfl
  · rw [h.sound.materialize_eq h.reachable.coherent hi rfl]

/-- A value column that writes the cell of a key column is not derived. -/
theorem not_derived_of_overlap {l : Layout} (hl : l.Valid) {c d : Column} (hc : c ∈ l.key)
    (hd : d ∈ l.value) (hcell : Record.cellOf c.field ∈ d.field.cells) :
    d.field.isDerived = false := by
  rw [Bool.eq_false_iff]
  intro hderived
  rw [FieldId.cells_of_isDerived hderived, List.mem_singleton] at hcell
  have hsame : c.field = d.field :=
    FieldId.eq_of_mem_cells hderived (hcell ▸ Record.cellOf_mem_cells c.field)
  exact hl.notMem_value hc (hsame ▸ List.mem_map_of_mem hd)

/-- The key columns of a row do not tell which of two records came first, up to the zeros. From
every state without groups that records lead to, writing two records in either order leaves groups
under the keys of their shares, and under no others. The row of each such group is filled in both
states, and each key column shows the same text in a table and the same member in an object, unless
it shows the two zeros or a value column that keeps the first value writes over its cell. -/
theorem RecordReachable.key_columns_of_swap (h : a.RecordReachable)
    (hempty : a.table.isEmpty = true) (r s : Record) :
    let b := a.writeAll [r, s]
    let b' := a.writeAll [s, r]
    let shares := a.layout.shares a.pairOnce r ++ a.layout.shares a.pairOnce s
    (∀ key, (∃ t, b.table.find? key = some t) ↔ ∃ x ∈ shares, x.key = key) ∧
      (∀ key, (∃ t, b'.table.find? key = some t) ↔ ∃ x ∈ shares, x.key = key) ∧
      ∀ x ∈ shares, ∃ (i j : Nat) (out out' : Record),
        b.sortedKeys.2[i]? = some x.key ∧ b'.sortedKeys.2[j]? = some x.key ∧
        (b.materialize ⟨i⟩ Record.empty).2 = (out, .ok ()) ∧
        (b'.materialize ⟨j⟩ Record.empty).2 = (out', .ok ()) ∧
        ∀ c ∈ a.layout.key, Record.ShowAlike a.layout.fields out out' c.field ∨
          Record.ShowZeros out out' c.field ∨
          ∃ d ∈ a.layout.value, Record.cellOf c.field ∈ d.field.cells ∧ d.merge = .keep := by
  intro b b' shares
  have hl := h.sound.valid
  have hperm : ([s, r].flatMap (a.layout.shares a.pairOnce)).Perm shares := by
    simpa [shares] using List.perm_append_comm
  have hsums : b.table.SumsUp a.layout.value shares := by
    simpa [shares] using sumsUp_writeAll hl hempty [r, s]
  have hsums' := sumsUp_writeAll hl hempty [s, r]
  refine ⟨hsums.held_iff, fun key => ?_, fun x hx => ?_⟩
  · rw [hsums'.held_iff]
    simp only [hperm.mem_iff]
  have hlayout : b.layout = a.layout := (a.writeAll_keeps [r, s]).1
  have hlayout' : b'.layout = a.layout := (a.writeAll_keeps [s, r]).1
  obtain ⟨t, ht⟩ := (hsums.fill.held_iff x.key).mpr ⟨x, hx, rfl⟩
  obtain ⟨u, hu⟩ := (hsums'.fill.held_iff x.key).mpr ⟨x, hperm.mem_iff.mpr hx, rfl⟩
  obtain ⟨i, hi, hfits, hkey, hrow⟩ := (h.writeAll [r, s]).row_of_find (hlayout.symm ▸ ht)
  obtain ⟨j, hj, hfits', hkey', hrow'⟩ := (h.writeAll [s, r]).row_of_find (hlayout'.symm ▸ hu)
  rw [hlayout] at hfits hrow
  rw [hlayout'] at hfits' hrow'
  refine ⟨i, j, _, _, hi, hj, hrow, hrow', fun c hc => ?_⟩
  by_cases hkept : ∃ d ∈ a.layout.value, Record.cellOf c.field ∈ d.field.cells ∧ d.merge = .keep
  · exact .inr (.inr hkept)
  · have hkeys := Value.agrees_of_keyText (hkey.trans hkey'.symm)
    refine (shown_of_agrees hl hfits hfits' hkeys hc fun n d hd hcell => ?_).imp_right .inl
    have hvalue := List.mem_of_getElem? hd
    have hderived := not_derived_of_overlap hl hc hvalue hcell
    have hfree := (hl.fromCatalog d (List.mem_append_right _ hvalue)).free hderived fun hkeep =>
      hkept ⟨d, hvalue, hcell, hkeep⟩
    exact (hsums.fill.sumOf x.key t ht).values_perm
      (fun y hy => fits_of_mem_flatMap hl (hperm.mem_iff.mpr hy)) hperm.symm
      (hsums'.fill.sumOf x.key u hu) hd hderived hfree

end

/-- Columns that group by a source port and by a rate. -/
def ratedPorts : List Operation :=
  [.configure ⟨.srcPort, .key, .none, 0, 0⟩, .configure ⟨.bitRate, .key, .none, 0, 0⟩]

/-- A record of a source port with a rate. -/
def ratedPort (rate : Binary64) : Record :=
  (fillRecord Record.empty [(.srcPort, .u16 80), (.bitRate, .f64 rate)]).1

/-- Two records whose rates are the two zeros have one key, and their group shows the same port
whichever comes first. -/
theorem key_columns_ratedPorts :
    let a := (new 2 TallyTable.polynomialSpread).run ratedPorts
    let r := ratedPort .zero
    let s := ratedPort (.neg .zero)
    let b := a.writeAll [r, s]
    let b' := a.writeAll [s, r]
    a.RecordReachable ∧ a.table.isEmpty = true ∧ ∃ (i j : Nat) (out out' : Record),
      b.sortedKeys.2[i]? = some "w:80;f:0;" ∧ b'.sortedKeys.2[j]? = some "w:80;f:0;" ∧
      (b.materialize ⟨i⟩ Record.empty).2 = (out, .ok ()) ∧
      (b'.materialize ⟨j⟩ Record.empty).2 = (out', .ok ()) ∧
      Record.ShowAlike a.layout.fields out out' .srcPort := by
  intro a r s b b'
  have hreachable : a.RecordReachable :=
    ⟨2, TallyTable.polynomialSpread, ratedPorts, by simp [ratedPorts, Operation.OnRecords], rfl⟩
  have hempty : a.table.isEmpty = true := by decide +kernel
  obtain ⟨-, -, hrows⟩ := RecordReachable.key_columns_of_swap hreachable hempty r s
  have hshare : ∃ x ∈ a.layout.shares a.pairOnce r ++ a.layout.shares a.pairOnce s,
      x.key = "w:80;f:0;" := by decide +kernel
  obtain ⟨x, hx, hkey⟩ := hshare
  obtain ⟨i, j, out, out', hi, hj, hout, hout', hshown⟩ := hrows x hx
  rw [hkey] at hi hj
  refine ⟨hreachable, hempty, i, j, out, out', hi, hj, hout, hout', ?_⟩
  have hcolumn : (⟨.srcPort, .key, .none, 0, 0, .u16, .keep⟩ : Column) ∈ a.layout.key := by
    decide +kernel
  rcases hshown _ hcolumn with halike | hzeros | hkept
  · exact halike
  · -- A port is no floating-point number.
    obtain ⟨y, -, hy, -⟩ := hzeros
    have htype : FieldId.srcPort.type? = some .f64 := Record.type_of_get hy
    exact absurd htype (by decide)
  · exact absurd hkept (by decide +kernel)

/-- Columns that group by the destination and keep the first pair of addresses. -/
def keptPairs : List Operation :=
  [.configure ⟨.dstAddr, .key, .none, 0, 0⟩, .configure ⟨.addr, .sum, .none, 0, 0⟩]

/-- A record of what a source sent to one destination. -/
def sentFrom (source : BitVec 32) : Record :=
  (fillRecord Record.empty [(.srcAddr, .addr (.v4 source)), (.dstAddr, .addr (.v4 0x09090909))]).1

/-- The key column of a group tells which of two records with its key came first where they have
the two zeros, and where a pair that is kept from the first is written over its member. -/
theorem reports_differ_of_swap :
    let a := (new 1 TallyTable.polynomialSpread).run ratedPorts
    let r := ratedPort .zero
    let s := ratedPort (.neg .zero)
    let b := (new 1 TallyTable.polynomialSpread).run keptPairs
    let t := sentFrom 0x01010101
    let u := sentFrom 0x02020202
    (a.RecordReachable ∧ a.table.isEmpty = true ∧
      (a.layout.shares a.pairOnce r).map Share.key = ["w:80;f:0;"] ∧
      (a.layout.shares a.pairOnce s).map Share.key = ["w:80;f:0;"] ∧
      ((a.writeAll [r, s]).report .table 0).2 = .ok ⟨1,
        "srcport    bps  bytes  duration  first  last\n" ++
        "     80  0.000      -         0      -     -\n"⟩ ∧
      ((a.writeAll [s, r]).report .table 0).2 = .ok ⟨1,
        "srcport     bps  bytes  duration  first  last\n" ++
        "     80  -0.000      -         0      -     -\n"⟩ ∧
      ((a.writeAll [r, s]).report .json 0).2 = .ok ⟨1,
        "\x7b\"bps\":0.0,\"duration\":0,\"srcport\":80\x7d\n"⟩ ∧
      ((a.writeAll [s, r]).report .json 0).2 = .ok ⟨1,
        "\x7b\"bps\":-0.0,\"duration\":0,\"srcport\":80\x7d\n"⟩) ∧
    b.RecordReachable ∧ b.table.isEmpty = true ∧
      (b.layout.shares b.pairOnce t).map Share.key = ["a:9.9.9.9;"] ∧
      (b.layout.shares b.pairOnce u).map Share.key = ["a:9.9.9.9;"] ∧
      ((b.writeAll [t, u]).report .table 0).2 = .ok ⟨1,
        "  dstip       ip\n" ++ "1.1.1.1  1.1.1.1\n"⟩ ∧
      ((b.writeAll [u, t]).report .table 0).2 = .ok ⟨1,
        "  dstip       ip\n" ++ "2.2.2.2  2.2.2.2\n"⟩ ∧
      ((b.writeAll [t, u]).report .json 0).2 = .ok ⟨1,
        "\x7b\"dstip\":\"1.1.1.1\",\"ip\":\"1.1.1.1\"\x7d\n"⟩ ∧
      ((b.writeAll [u, t]).report .json 0).2 = .ok ⟨1,
        "\x7b\"dstip\":\"2.2.2.2\",\"ip\":\"2.2.2.2\"\x7d\n"⟩ := by
  intro a r s b t u
  refine ⟨⟨⟨1, TallyTable.polynomialSpread, ratedPorts, ?_, rfl⟩, ?_⟩,
    ⟨1, TallyTable.polynomialSpread, keptPairs, ?_, rfl⟩, ?_⟩
  · simp [ratedPorts, Operation.OnRecords]
  · decide +kernel
  · simp [keptPairs, Operation.OnRecords]
  · decide +kernel

end Aggregator

end FlowTally
