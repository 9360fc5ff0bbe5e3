import FlowTally.Proofs.Aggregator.Fit
import FlowTally.Proofs.Aggregator.Kept
import FlowTally.Proofs.Decimal.Nonzero
import FlowTally.Proofs.Time.KeyText

/-!
# Derived values are what their formulas give

Filling in computes the derived fields one after the other, each after its inputs, and touches
nothing else. So when all are filled in, each of them is its formula applied to the values that its
inputs have then, in whichever part they stand. The formulas divide by no zero: a word other than
zero is no zero as a floating-point number, nor is its thousandth.
-/

namespace FlowTally

/-- The layout that requests lead to, one after the other. A refused one changes nothing. -/
def Layout.configureAll (l : Layout) (requests : List ColumnRequest) : Layout :=
  requests.foldl (fun l r => (l.configure r).getD l) l

/-- The value of a group in the column of a field, if there is one. -/
def Layout.held (l : Layout) (t : Tally) (f : FieldId) : Option Value :=
  (l.locate f).bind t.at?

/-- A group has a value of its type for each key column and may have one for each value column. -/
structure Tally.Typed (l : Layout) (t : Tally) : Prop where
  /-- The key values have the types of the key columns. -/
  keys : List.Forall₂ (fun c v => v.type = c.type) l.key t.keys
  /-- The merged values that are present have the types of the value columns. -/
  values : List.Forall₂ Column.Takes l.value t.values

namespace Derived

/-- The count that a value stands for. An absent one counts as zero. -/
def count : Option Value → UInt64
  | some (.u64 n) => n
  | _ => 0

/-- The whole milliseconds between two points in time, truncated toward zero and without their
sign; zero if either is absent. -/
def elapsed : Option Value → Option Value → Nat
  | some (.timestamp first), some (.timestamp last) =>
    ((last.nanosSince first).tdiv 1000000).natAbs
  | _, _ => 0

/-- An amount per second, over a number of milliseconds; zero over no time. -/
def rate (amount : Binary64) (millis : UInt64) : Binary64 :=
  if millis = 0 then .zero
  else amount.div ((Binary64.ofUInt64 millis).div (.ofUInt64 1000))

/-- What a derived field is, in terms of the values of other fields. -/
def formula (value : FieldId → Option Value) (f : FieldId) : Value :=
  let bytes := Binary64.ofUInt64 (count (value .bytes))
  let packets := Binary64.ofUInt64 (count (value .packets))
  let millis := count (value .duration)
  if f = .duration then .u64 (.ofNat (elapsed (value .first) (value .last)))
  else if f = .bitRate then .f64 (rate (bytes.mul (.ofUInt64 8)) millis)
  else if f = .packetRate then .f64 (rate packets millis)
  else .f64 (if count (value .packets) = 0 then .zero else bytes.div packets)

/-- A group has become another by its derived values alone, and each of those that are merged is
its formula applied to the values that the other group holds. -/
structure Completes (l : Layout) (t u : Tally) : Prop where
  /-- The key values are left, derived ones included. -/
  keys_eq : u.keys = t.keys
  /-- No merged value is added or removed. -/
  length_eq : u.values.length = t.values.length
  /-- The merged values that are not derived are left. -/
  raw_eq : ∀ (i : Nat) (c : Column), l.value[i]? = some c → c.field.isDerived = false →
    u.values[i]? = t.values[i]?
  /-- Each merged derived value is present and is what its formula gives. -/
  derived_eq : ∀ f ∈ l.value.map (·.field), f.isDerived = true →
    l.held u f = some (formula (l.held u) f)

end Derived

namespace Instant

/-- The nanoseconds between two points are those between their seconds, with a leap second or
without, and those of their fractions. -/
theorem exists_nanosSince (last first : Instant) : ∃ leap : Int, leap.natAbs ≤ 1 ∧
    last.nanosSince first =
      (last.second - first.second + leap) * 1000000000 + (last.nano - first.nano) := by
  have hlast := last.second_eq
  have hfirst := first.second_eq
  rw [hlast, hfirst]
  unfold nanosSince
  dsimp only
  split
  · exact ⟨1, by decide, by ring⟩
  · split
    · exact ⟨-1, by decide, by ring⟩
    · exact ⟨0, by decide, by ring⟩

/-- The milliseconds between two points are far below the largest signed word. -/
theorem millis_lt (last first : Instant) :
    ((last.nanosSince first).tdiv 1000000).natAbs < 2 ^ 63 := by
  obtain ⟨leap, hleap, hnanos⟩ := exists_nanosSince last first
  have hlast : -8334601228800 ≤ last.second ∧ last.second ≤ 8210266876799 :=
    ⟨last.earliest_le, last.le_latest⟩
  have hfirst : -8334601228800 ≤ first.second ∧ first.second ≤ 8210266876799 :=
    ⟨first.earliest_le, first.le_latest⟩
  have hnano := last.nano_lt
  have hnano' := first.nano_lt
  have hbound : (last.nanosSince first).natAbs < 1000000 * 2 ^ 63 := by omega
  rw [Int.natAbs_tdiv]
  exact Nat.div_lt_of_lt_mul hbound

end Instant

namespace Derived

variable {l : Layout} {t u : Tally} {pending fs : List FieldId}

/-- A duration is the whole milliseconds between its inputs. -/
theorem duration_eq (first last : Option Value) :
    duration first last = .ofNat (elapsed first last) := by
  have hmillis : ∀ a b : Instant, Instant.millisBetween a b =
      ((b.nanosSince a).tdiv 1000000).natAbs := by
    intro a b
    rw [Instant.millisBetween, Int.natAbs_tdiv]
    rfl
  unfold duration
  cases first with
  | none => rfl
  | some v =>
    cases last with
    | none => cases v <;> rfl
    | some w =>
      cases v <;> cases w <;> first | rfl | exact congrArg UInt64.ofNat (hmillis _ _)

/-- A word counts as the floating-point number next to it, and an absent one as zero. -/
theorem number_eq {v : Option Value} (h : ∀ w, v = some w → w.type = .u64) :
    number v = .ofUInt64 (count v) := by
  cases v with
  | none => decide
  | some w =>
    have htype := h w rfl
    cases w <;> first | rfl | cases htype

/-- A derived field is computed by its formula, if its inputs have their types. -/
theorem compute_eq_formula {f : FieldId} (hf : f ∈ FieldId.derived) {value : FieldId → Option Value}
    (h : ∀ g v, value g = some v → g.type? = some v.type) :
    compute f (f.inputs.map value) = some (formula value f) := by
  have hwords : ∀ g ∈ [FieldId.bytes, FieldId.packets, FieldId.duration],
      number (value g) = .ofUInt64 (count (value g)) := by
    have htypes : ∀ g ∈ [FieldId.bytes, FieldId.packets, FieldId.duration],
        g.type? = some .u64 := by decide
    refine fun g hg => number_eq fun v hv => ?_
    exact (Option.some.inj ((htypes g hg).symm.trans (h g v hv))).symm
  have hbytes := hwords .bytes (by decide)
  have hpackets := hwords .packets (by decide)
  have hduration := hwords .duration (by decide)
  have hrate : ∀ (amount : Binary64) (n : UInt64), perSecond amount (.ofUInt64 n) = rate amount n :=
    fun amount n => by simp only [perSecond, rate, Binary64.isZero_ofUInt64, decide_eq_true_eq]
  simp only [FieldId.derived, List.mem_cons, List.not_mem_nil, or_false] at hf
  rcases hf with rfl | rfl | rfl | rfl
  · change some (Value.u64 (duration (value .first) (value .last))) = _
    rw [duration_eq]
    rfl
  · change some (Value.f64 (perSecond ((number (value .bytes)).mul (.ofUInt64 8))
      (number (value .duration)))) = _
    rw [hbytes, hduration, hrate]
    rfl
  · change some (Value.f64 (perSecond (number (value .packets)) (number (value .duration)))) = _
    rw [hpackets, hduration, hrate]
    rfl
  · change some (Value.f64 (perPiece (number (value .bytes)) (number (value .packets)))) = _
    rw [hbytes, hpackets]
    simp only [perPiece, Binary64.isZero_ofUInt64, decide_eq_true_eq]
    rfl

/-- The inputs of a field are read from the columns of their fields. -/
theorem map_held_eq {places : List (Part × Nat)} (h : inputPlaces l fs = some places) (t : Tally) :
    places.map t.at? = fs.map (l.held t) := by
  induction fs generalizing places with
  | nil =>
    obtain rfl := Option.some.inj h
    rfl
  | cons f rest ih =>
    unfold inputPlaces at h
    split at h
    · next place tail hplace htail =>
      obtain rfl := Option.some.inj h
      rw [List.map_cons, List.map_cons, ih htail, Layout.held, hplace, Option.bind_some]
    · cases h

/-- Groups that agree in a field hold the same value there. -/
theorem AgreeBut.held_eq (h : AgreeBut l pending t u) {f : FieldId} (hf : f ∉ pending) :
    l.held t f = l.held u f := by
  unfold Layout.held
  cases hlocate : l.locate f with
  | none => rfl
  | some place => exact h.at_eq hf hlocate

/-- Filling in fields changes the values of these fields only. -/
theorem agreeBut_foldl (l : Layout) (fs : List FieldId) (t : Tally) :
    AgreeBut l fs t (fs.foldl (fillField l) t) := by
  induction fs generalizing t with
  | nil => exact ⟨rfl, rfl, fun _ _ => rfl⟩
  | cons f rest ih =>
    have hrest := ih (fillField l t f)
    rw [List.foldl_cons]
    rcases fillField_cases l t f with hsame | ⟨i, v, hlocate, -, hset⟩
    · rw [hsame] at hrest ⊢
      exact ⟨hrest.keys_eq, hrest.length_eq, fun j hj =>
        hrest.values_eq j fun c hc hmem => hj c hc (List.mem_cons_of_mem f hmem)⟩
    · rw [hset] at hrest ⊢
      refine ⟨hrest.keys_eq, ?_, fun j hj => ?_⟩
      · rw [← hrest.length_eq, Tally.setValue, List.length_set]
      · rw [← hrest.values_eq j fun c hc hmem => hj c hc (List.mem_cons_of_mem f hmem)]
        obtain ⟨c, hc, rfl⟩ := Layout.value_of_locate hlocate
        have hne : i ≠ j := by
          rintro rfl
          exact hj c hc List.mem_cons_self
        rw [Tally.setValue, List.getElem?_set_ne hne]

/-- After one field was filled in, it holds what is computed from the values of its inputs. -/
theorem held_fillField (hl : l.Valid) {f : FieldId} (hf : f ∈ FieldId.derived)
    (hvalue : f ∈ l.value.map (·.field)) (hlength : t.values.length = l.value.length) :
    l.held (fillField l t f) f = compute f (f.inputs.map (l.held t)) := by
  obtain ⟨c, hc, rfl⟩ := List.mem_map.mp hvalue
  obtain ⟨i, hi, hget⟩ := List.getElem_of_mem hc
  have hlocate : l.locate c.field = some (.value, i) :=
    hl.locate_value (List.getElem?_eq_some_iff.mpr ⟨hi, hget⟩)
  have hmem : c.field ∈ l.fields := List.mem_map_of_mem (List.mem_append_right l.key hc)
  obtain ⟨places, hplaces, hcount⟩ := exists_inputPlaces (hl.inputs_mem c.field hmem)
  have hinputs : (places.map t.at?).length = c.field.inputs.length := by
    rw [List.length_map, hcount]
  obtain ⟨v, hv⟩ := exists_compute hf hinputs
  have hset : fillField l t c.field = t.setValue i v := by
    simp only [fillField, hlocate, hplaces, hv]
  rw [← map_held_eq hplaces, hv, hset, Layout.held, hlocate, Option.bind_some, Tally.at?,
    Tally.setValue, List.getElem?_set_self (hlength ▸ hi)]
  rfl

/-- After fields were filled in, each after its inputs, each holds what is computed from the values
that its inputs hold then. -/
theorem held_foldl (hl : l.Valid) (hfs : ∀ f ∈ fs, f ∈ FieldId.derived)
    (hself : ∀ f ∈ fs, f ∉ f.inputs) (hafter : fs.Pairwise fun f g => g ∉ f.inputs ∧ f ≠ g)
    (hlength : t.values.length = l.value.length) :
    ∀ f ∈ fs, f ∈ l.value.map (·.field) →
      l.held (fs.foldl (fillField l) t) f =
        compute f (f.inputs.map (l.held (fs.foldl (fillField l) t))) := by
  induction fs generalizing t with
  | nil => exact fun _ h => absurd h List.not_mem_nil
  | cons f rest ih =>
    obtain ⟨hf, hrest⟩ := List.pairwise_cons.mp hafter
    have hone : AgreeBut l [f] t (fillField l t f) := agreeBut_foldl l [f] t
    intro g hg hvalue
    rw [List.foldl_cons]
    rcases List.mem_cons.mp hg with rfl | hg
    · -- Neither this field nor its inputs are filled in later.
      have hlater := agreeBut_foldl l rest (fillField l t g)
      have hinputs : g.inputs.map (l.held t) =
          g.inputs.map (l.held (rest.foldl (fillField l) (fillField l t g))) := by
        refine List.map_congr_left fun i hi => ?_
        have hbefore : i ∉ [g] := by
          intro hmem
          obtain rfl := List.mem_singleton.mp hmem
          exact hself i List.mem_cons_self hi
        rw [hone.held_eq hbefore, hlater.held_eq fun hmem => (hf i hmem).1 hi]
      rw [← hlater.held_eq fun hmem => (hf g hmem).2 rfl, ← hinputs]
      exact held_fillField hl (hfs g List.mem_cons_self) hvalue hlength
    · refine ih (fun i hi => hfs i (List.mem_cons_of_mem f hi))
        (fun i hi => hself i (List.mem_cons_of_mem f hi)) hrest ?_ g hg hvalue
      rw [← hone.length_eq, hlength]

end Derived

namespace Tally.Typed

variable {l : Layout} {t : Tally}

/-- A group with filled in derived values has values of the types of the columns. -/
theorem fill (hl : l.Valid) (h : t.Typed l) : (Derived.fill l t).Typed l where
  keys := (Derived.keys_fill l t).symm ▸ h.keys
  values := Fits.takes_fill hl h.values

/-- The value that a group holds for a field has the type of the field. -/
theorem type_of_held (hl : l.Valid) (h : t.Typed l) {f : FieldId} {v : Value}
    (hv : l.held t f = some v) : f.type? = some v.type := by
  obtain ⟨⟨part, i⟩, hlocate, hat⟩ := Option.bind_eq_some_iff.mp hv
  obtain ⟨c, hc, rfl⟩ := Layout.column_of_locate hlocate
  have hmem : c ∈ l.columns := Layout.mem_columns_of_part (List.mem_of_getElem? hc)
  rw [(hl.fromCatalog c hmem).type_eq]
  cases part with
  | key =>
    have hpair : (c, v) ∈ l.key.zip t.keys :=
      List.mem_of_getElem? (List.getElem?_zip_eq_some.mpr ⟨hc, hat⟩)
    rw [(List.forall₂_iff_zip.mp h.keys).2 hpair]
  | value =>
    obtain ⟨o, ho, hsome⟩ := Option.bind_eq_some_iff.mp hat
    have hpair : (c, o) ∈ l.value.zip t.values :=
      List.mem_of_getElem? (List.getElem?_zip_eq_some.mpr ⟨hc, ho⟩)
    rw [(List.forall₂_iff_zip.mp h.values).2 hpair v hsome]

/-- Filling in the derived values of a group completes it. -/
theorem completes_fill (hl : l.Valid) (h : t.Typed l) :
    Derived.Completes l t (Derived.fill l t) where
  keys_eq := Derived.keys_fill l t
  length_eq := Derived.length_values_fill l t
  raw_eq i c hc hraw := by
    refine Derived.values_fill_of_not_derived t fun d hd => ?_
    obtain rfl := Option.some.inj (hc.symm.trans hd)
    exact of_decide_eq_false hraw
  derived_eq f hf hderived := by
    have hmem : f ∈ FieldId.derived := of_decide_eq_true hderived
    have htypes : ∀ g v, l.held (Derived.fill l t) g = some v → g.type? = some v.type :=
      fun g v => (h.fill hl).type_of_held hl
    rw [← Derived.compute_eq_formula hmem htypes]
    exact Derived.held_foldl hl (fun _ hg => hg) (by decide) (by decide)
      h.values.length_eq.symm f hmem hf

end Tally.Typed

namespace Layout

/-- Requests lead from a layout that was configured to another. -/
theorem Valid.configureAll {l : Layout} (hl : l.Valid) (requests : List ColumnRequest) :
    (l.configureAll requests).Valid := by
  induction requests generalizing l with
  | nil => exact hl
  | cons r rest ih =>
    have hone : ((l.configure r).getD l).Valid := by
      cases hr : l.configure r with
      | none => exact hl
      | some m => exact hl.configure hr
    exact ih hone

end Layout

namespace TallyTable

/-- Derived values are what their formulas give. Under every layout that requests lead to, and for
every table whose groups have values of the types of the columns, rebuilding changes the derived
values among the merged ones and nothing else, and each of them is then its formula applied to the
values that the group holds then, whichever part they stand in. All inputs of a derived field have
columns, rebuilding again changes nothing, the milliseconds between any two points in time fit a
signed word, and neither a word other than zero nor its thousandth is zero as a divisor. -/
theorem rebuild_completes (requests : List ColumnRequest) {t : TallyTable}
    (ht : ∀ e ∈ t.entries, e.2.Typed (Layout.empty.configureAll requests))
    (ordering : AddressOrdering) :
    let l := Layout.empty.configureAll requests
    let u := (t.rebuild l ordering).1
    List.Forall₂ (fun e e' => e'.1 = e.1 ∧ Derived.Completes l e.2 e'.2) t.entries u.entries ∧
      (∀ f ∈ l.fields, ∀ g ∈ f.inputs, (l.locate g).isSome = true) ∧
      u.rebuild l ordering = t.rebuild l ordering ∧
      (∀ first last : Instant, ((last.nanosSince first).tdiv 1000000).natAbs < 2 ^ 63) ∧
      ∀ n : UInt64, n ≠ 0 → (Binary64.ofUInt64 n).isZero = false ∧
        ((Binary64.ofUInt64 n).div (.ofUInt64 1000)).isZero = false := by
  intro l u
  have hl : l.Valid := Layout.Valid.empty.configureAll requests
  refine ⟨?_, fun f hf g hg => Layout.contains_iff.mpr (hl.inputs_mem f hf g hg),
    rebuild_rebuild hl t ordering, fun first last => Instant.millis_lt last first,
    fun n hn => ⟨?_, Binary64.isZero_div_ofUInt64 hn (by decide)⟩⟩
  · have hentries : u.entries = t.entries.map fun e => (e.1, Derived.fill l e.2) :=
      entries_mapTallies t (Derived.fill l)
    rw [hentries, List.forall₂_map_right_iff]
    exact List.forall₂_same.mpr fun e he => ⟨rfl, (ht e he).completes_fill hl⟩
  · rw [Binary64.isZero_ofUInt64, decide_eq_false hn]

end TallyTable

namespace Aggregator

/-- In what records of this library lead to, the values of every group have the types of the
columns. -/
theorem RecordReachable.typed {a : Aggregator} (h : a.RecordReachable) :
    ∀ e ∈ a.table.entries, e.2.Typed a.layout := by
  intro e he
  have hsound := h.sound
  have hfits := hsound.fits.tally e.1 e.2 (hsound.placed.mem_entries_iff.mp he)
  exact ⟨hfits.keys.imp fun _ _ hc => hc.type_eq, hfits.values⟩

/-- Requests to group by the port of the source and to order by the bits per second. -/
def ratedRequests : List ColumnRequest :=
  [⟨.srcPort, .key, .none, 0, 0⟩, ⟨.bitRate, .auto, .desc, 0, 0⟩]

/-- A flow that ends in the middle of the leap second at the end of 2016 and began one and a half
seconds before, and that carries another duration. -/
def leapRecord : Record :=
  (fillRecord Record.empty
    [(.srcPort, .u16 53), (.bytes, .u64 300), (.duration, .u64 7),
     (.first, .timestamp ((Instant.ofParts? 1483228799 0).getD .epoch)),
     (.last, .timestamp ((Instant.ofParts? 1483228799 1500000000).getD .epoch))]).1

/-- The flow within a leap second has a duration of 1500 milliseconds, and 1600 bits per second. -/
theorem rebuild_completes_leapRecord :
    let l := Layout.empty.configureAll ratedRequests
    let a := (new 2 TallyTable.polynomialSpread).run
      (ratedRequests.map .configure ++ [.write leapRecord])
    let u := (a.table.rebuild l .legacy).1
    (∀ e ∈ a.table.entries, e.2.Typed l) ∧
      List.Forall₂ (fun e e' => e'.1 = e.1 ∧ Derived.Completes l e.2 e'.2) a.table.entries
        u.entries ∧
      (a.table.find? "w:53;").bind (l.held · .duration) = some (.u64 7) ∧
      (u.find? "w:53;").bind (l.held · .duration) = some (.u64 1500) ∧
      (u.find? "w:53;").bind (l.held · .bitRate) = some (.f64 (.ofUInt64 1600)) := by
  intro l a u
  have hreachable : a.RecordReachable := by
    refine ⟨2, TallyTable.polynomialSpread, _, ?_, rfl⟩
    simp [ratedRequests, Operation.OnRecords]
  have htyped : ∀ e ∈ a.table.entries, e.2.Typed l := hreachable.typed
  exact ⟨htyped, (TallyTable.rebuild_completes ratedRequests htyped .legacy).1, by decide +kernel,
    by decide +kernel, by decide +kernel⟩

end Aggregator

end FlowTally
