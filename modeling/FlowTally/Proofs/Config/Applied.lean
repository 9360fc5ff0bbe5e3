import FlowTally.Config.Basic
import FlowTally.Proofs.Layout.Listed

/-!
# A checked configuration takes effect as written

A configuration that passes its check names each field once and asks for an order at most once, so
its fields are requests that the layout can be read off from in any order. Only one thing can still
go wrong when it is applied: a composite field can be carried along but not aggregated.
-/

namespace FlowTally

/-- A field that can be carried along but not aggregated. -/
def FieldId.IsComposite (f : FieldId) : Prop := ∃ e, f.info? = some e ∧ e.aggregatable = false

/-- A field that has a name is in the catalog. -/
theorem FieldId.exists_info_of_ofName? {name : String} {f : FieldId} (h : ofName? name = some f) :
    ∃ e, f.info? = some e := by
  obtain ⟨e, he, rfl⟩ := Option.map_eq_some_iff.mp h
  refine Option.isSome_iff_exists.mp (List.find?_isSome.mpr ⟨e, List.mem_of_find?_eq_some he, ?_⟩)
  exact decide_eq_true rfl

/-- A request for a field of the catalog is accepted unless it asks for an aggregation of a composite
field. -/
theorem ColumnRequest.isAccepted_iff {r : ColumnRequest} (h : ∃ e, r.field.info? = some e) :
    r.isAccepted = true ↔ (r.field.IsComposite → r.kind = .auto) := by
  obtain ⟨e, he⟩ := h
  simp only [isAccepted, he, Bool.or_eq_true, decide_eq_true_eq]
  constructor
  · rintro haccepted ⟨e', he', hcomposite⟩
    obtain rfl : e = e' := Option.some.inj (he.symm.trans he')
    rw [hcomposite] at haccepted
    exact haccepted.resolve_left Bool.false_ne_true
  · intro hauto
    cases haggregatable : e.aggregatable with
    | true => exact .inl rfl
    | false => exact .inr (hauto ⟨e, he, haggregatable⟩)

namespace FieldSetting

/-- What a field of a configuration asks for, if its name is known. -/
def request? (f : FieldSetting) : Option ColumnRequest :=
  (FieldId.ofName? f.name).map fun field => ⟨field, f.kind, f.sort, f.v4Bits, f.v6Bits⟩

variable {f : FieldSetting} {r : ColumnRequest}

/-- The field that is asked for is the one of that name. -/
theorem ofName?_of_request? (h : f.request? = some r) : FieldId.ofName? f.name = some r.field := by
  obtain ⟨field, hname, rfl⟩ := Option.map_eq_some_iff.mp h
  exact hname

/-- All else that is asked for is what the configuration says. -/
theorem eq_of_request? (h : f.request? = some r) :
    r = ⟨r.field, f.kind, f.sort, f.v4Bits, f.v6Bits⟩ := by
  obtain ⟨field, -, rfl⟩ := Option.map_eq_some_iff.mp h
  rfl

end FieldSetting

namespace Config

/-- What the fields of a configuration ask for. -/
def requests (c : Config) : List ColumnRequest := c.fields.filterMap FieldSetting.request?

/-- All that is asked for is asked of fields of the catalog. -/
theorem exists_info_of_mem_requests {c : Config} {r : ColumnRequest} (hr : r ∈ c.requests) :
    ∃ e, r.field.info? = some e := by
  obtain ⟨f, -, hf⟩ := List.mem_filterMap.mp hr
  exact FieldId.exists_info_of_ofName? (FieldSetting.ofName?_of_request? hf)

/-- The check of the fields says that each one has a name and lengths that there are, and that none
of them stands in front or twice. -/
theorem checkFields_eq_ok_iff (seen : List FieldId) (fs : List FieldSetting) :
    checkFields seen fs = .ok () ↔
      (∀ f ∈ fs, ∃ r, f.request? = some r ∧ r.field ∉ seen ∧ f.v4Bits ≤ 32 ∧ f.v6Bits ≤ 128) ∧
        ((fs.filterMap FieldSetting.request?).map (·.field)).Nodup := by
  induction fs generalizing seen with
  | nil => exact ⟨fun _ => ⟨fun _ h => absurd h List.not_mem_nil, List.nodup_nil⟩, fun _ => rfl⟩
  | cons f rest ih =>
    rw [List.forall_mem_cons]
    cases hr : f.request? with
    | none =>
      have hname : FieldId.ofName? f.name = none := Option.map_eq_none_iff.mp hr
      simp [checkFields, hname]
    | some r =>
      have hname := FieldSetting.ofName?_of_request? hr
      rw [List.filterMap_cons_some hr, List.map_cons, List.nodup_cons]
      simp only [checkFields, hname, Option.some.injEq, exists_eq_left']
      by_cases hseen : r.field ∈ seen
      · simp [hseen]
      by_cases hv4 : 32 < f.v4Bits
      · simp [hseen, hv4]
      by_cases hv6 : 128 < f.v6Bits
      · simp [hseen, hv4, hv6]
      have hmem : ∀ s, s ∈ rest.filterMap FieldSetting.request? ↔ ∃ g ∈ rest, g.request? = some s :=
        fun _ => List.mem_filterMap
      rw [if_neg hseen, if_neg hv4, if_neg hv6, ih]
      constructor
      · rintro ⟨hrest, hnodup⟩
        refine ⟨⟨⟨hseen, UInt8.not_lt.mp hv4, UInt8.not_lt.mp hv6⟩, fun g hg => ?_⟩, ?_, hnodup⟩
        · obtain ⟨s, hs, hnew, hlengths⟩ := hrest g hg
          exact ⟨s, hs, fun hold => hnew (List.mem_cons_of_mem _ hold), hlengths⟩
        · intro htwice
          obtain ⟨s, hs, hfield⟩ := List.mem_map.mp htwice
          obtain ⟨g, hg, hg'⟩ := (hmem s).mp hs
          obtain ⟨t, ht, hnew, -⟩ := hrest g hg
          obtain rfl : s = t := Option.some.inj (hg'.symm.trans ht)
          exact hnew (hfield ▸ List.mem_cons_self)
      · rintro ⟨⟨-, hrest⟩, hnew, hnodup⟩
        refine ⟨fun g hg => ?_, hnodup⟩
        obtain ⟨s, hs, hold, hlengths⟩ := hrest g hg
        refine ⟨s, hs, fun hin => ?_, hlengths⟩
        rcases List.mem_cons.mp hin with hfield | hin
        · exact hnew (List.mem_map.mpr ⟨s, (hmem s).mpr ⟨g, hg, hs⟩, hfield⟩)
        · exact hold hin

/-- What a configuration must be like. -/
structure WellFormed (c : Config) : Prop where
  /-- There is a field. -/
  fields_ne_nil : c.fields ≠ []
  /-- There is a shard. -/
  shards_ne_zero : c.shards ≠ 0
  /-- There is a worker. -/
  workers_ne_zero : c.workers ≠ 0
  /-- Each field has a name, and lengths that addresses have. -/
  named : ∀ f ∈ c.fields, ∃ r, f.request? = some r ∧ f.v4Bits ≤ 32 ∧ f.v6Bits ≤ 128
  /-- No field is named twice. -/
  nodup : (c.requests.map (·.field)).Nodup
  /-- At most one field asks for an order. -/
  sorted_le_one : (c.fields.filter fun f => decide (f.sort ≠ .none)).length ≤ 1

/-- A configuration passes its check exactly if it is what it must be like. -/
theorem validate_eq_ok_iff (c : Config) : c.validate = .ok () ↔ c.WellFormed := by
  have hfields := checkFields_eq_ok_iff [] c.fields
  simp only [List.not_mem_nil, not_false_eq_true, true_and] at hfields
  have hsorted : ¬1 < c.sortedNames.length ↔
      (c.fields.filter fun f => decide (f.sort ≠ .none)).length ≤ 1 := by
    rw [sortedNames, List.length_map, Nat.not_lt]
  constructor
  · intro h
    unfold validate at h
    split at h
    · cases h
    split at h
    · cases h
    split at h
    · cases h
    next hempty hshards hworkers =>
    cases hcheck : checkFields [] c.fields with
    | error e => simp [hcheck] at h
    | ok _ =>
      obtain ⟨hnamed, hnodup⟩ := hfields.mp hcheck
      have hone : ¬1 < c.sortedNames.length := by
        intro hseveral
        simp [hcheck, hseveral] at h
      have hne : c.fields ≠ [] := fun hnil => hempty (List.isEmpty_iff.mpr hnil)
      exact ⟨hne, hshards, hworkers, hnamed, hnodup, hsorted.mp hone⟩
  · intro h
    have hempty : ¬c.fields.isEmpty = true := fun hnil => h.fields_ne_nil (List.isEmpty_iff.mp hnil)
    unfold validate
    rw [if_neg hempty, if_neg h.shards_ne_zero, if_neg h.workers_ne_zero,
      hfields.mpr ⟨h.named, h.nodup⟩]
    exact if_neg (hsorted.mpr h.sorted_le_one)

namespace WellFormed

variable {c : Config}

/-- The order of the fields does not matter to the check. -/
theorem perm (h : c.WellFormed) {fields : List FieldSetting} (hfields : fields.Perm c.fields) :
    WellFormed { c with fields := fields } where
  fields_ne_nil := by
    intro (hnil : fields = [])
    subst hnil
    exact h.fields_ne_nil (List.nil_perm.mp hfields)
  shards_ne_zero := h.shards_ne_zero
  workers_ne_zero := h.workers_ne_zero
  named f hf := h.named f (hfields.mem_iff.mp hf)
  nodup := (((hfields.filterMap _).map _).nodup_iff).mpr h.nodup
  sorted_le_one := (hfields.filter _).length_eq ▸ h.sorted_le_one

/-- Each field asks for one column. -/
theorem map_request? (h : c.WellFormed) :
    c.fields.map FieldSetting.request? = c.requests.map some := by
  have hall : ∀ fs : List FieldSetting, (∀ f ∈ fs, ∃ r, f.request? = some r) →
      fs.map FieldSetting.request? = (fs.filterMap FieldSetting.request?).map some := by
    intro fs hfs
    induction fs with
    | nil => rfl
    | cons f rest ih =>
      obtain ⟨r, hr⟩ := hfs f List.mem_cons_self
      rw [List.map_cons, List.filterMap_cons_some hr, List.map_cons, hr,
        ih fun g hg => hfs g (List.mem_cons_of_mem f hg)]
  exact hall c.fields fun f hf => (h.named f hf).imp fun _ hr => hr.1

/-- At most one field asks for an order. -/
theorem eq_of_sorted (h : c.WellFormed) {r s : ColumnRequest} (hr : r ∈ c.requests)
    (hs : s ∈ c.requests) (hrsort : r.sort ≠ .none) (hssort : s.sort ≠ .none) : s = r := by
  have hsorted : ∀ {r}, r ∈ c.requests → r.sort ≠ .none →
      ∃ f ∈ c.fields.filter fun f => decide (f.sort ≠ .none), f.request? = some r := by
    intro r hr hsort
    obtain ⟨f, hf, hrequest⟩ := List.mem_filterMap.mp hr
    rw [FieldSetting.eq_of_request? hrequest] at hsort
    exact ⟨f, List.mem_filter.mpr ⟨hf, decide_eq_true hsort⟩, hrequest⟩
  obtain ⟨f, hf, hfr⟩ := hsorted hr hrsort
  obtain ⟨g, hg, hgs⟩ := hsorted hs hssort
  obtain ⟨x, hx⟩ := List.length_eq_one_iff.mp
    (Nat.le_antisymm h.sorted_le_one (List.length_pos_of_mem hf))
  rw [hx] at hf hg
  obtain rfl := List.mem_singleton.mp hf
  obtain rfl := List.mem_singleton.mp hg
  exact Option.some.inj (hgs.symm.trans hfr)

end WellFormed

section

variable {a b : Aggregator} {f : FieldSetting} {r : ColumnRequest}

/-- A field that gets its column gets it before the others get theirs. -/
theorem applyFields_of_ok (hr : f.request? = some r) (h : a.configure r = (b, .ok ()))
    (rest : List FieldSetting) : applyFields a (f :: rest) = applyFields b rest := by
  rw [FieldSetting.eq_of_request? hr] at h
  simp only [applyFields, FieldSetting.ofName?_of_request? hr, h]

/-- A field that is refused ends the application. -/
theorem applyFields_of_error (hr : f.request? = some r) {e : AggregateError}
    (h : a.configure r = (b, .error e)) (rest : List FieldSetting) :
    applyFields a (f :: rest) = (b, .error (.refused f.name e)) := by
  rw [FieldSetting.eq_of_request? hr] at h
  simp only [applyFields, FieldSetting.ofName?_of_request? hr, h]

end

/-- Fields that were not asked for before get their columns, behind whatever was asked for, exactly
if each of them can get the one it asks for. -/
theorem applyFields_listed {a : Aggregator} {asked : List ColumnRequest} {fs : List FieldSetting}
    (h : a.layout.Listed asked) (hnamed : ∀ f ∈ fs, ∃ r, f.request? = some r)
    (hnodup : ((asked ++ fs.filterMap FieldSetting.request?).map (·.field)).Nodup) :
    ((applyFields a fs).2 = .ok () ↔
      ∀ r ∈ fs.filterMap FieldSetting.request?, r.isAccepted = true) ∧
    ((applyFields a fs).2 = .ok () →
      (applyFields a fs).1.layout.Listed (asked ++ fs.filterMap FieldSetting.request?)) := by
  induction fs generalizing a asked with
  | nil =>
    rw [List.filterMap_nil, List.append_nil]
    exact ⟨⟨fun _ _ hr => absurd hr List.not_mem_nil, fun _ => rfl⟩, fun _ => h⟩
  | cons f rest ih =>
    obtain ⟨r, hr⟩ := hnamed f List.mem_cons_self
    rw [List.filterMap_cons_some hr, List.append_cons] at hnodup
    rw [List.filterMap_cons_some hr, List.append_cons, List.forall_mem_cons,
      ← a.layout.isSome_configure r]
    cases hl : a.layout.configure r with
    | none =>
      have hconfigure : a.configure r = (a.touch, .error (.unknownField r.field)) := by
        rw [Aggregator.configure, hl]
      rw [applyFields_of_error hr hconfigure]
      refine ⟨⟨fun hok => ?_, fun hsome => ?_⟩, fun hok => ?_⟩
      · cases hok
      · cases hsome.1
      · cases hok
    | some l =>
      obtain ⟨b, hconfigure, hlayout⟩ : ∃ b, a.configure r = (b, .ok ()) ∧ b.layout = l := by
        rw [Aggregator.configure, hl]
        exact ⟨_, rfl, rfl⟩
      have hnew : ∀ s ∈ asked, s.field ≠ r.field := by
        rw [List.append_assoc, List.map_append] at hnodup
        intro s hs
        exact (List.nodup_append.mp hnodup).2.2 _ (List.mem_map_of_mem hs) _ List.mem_cons_self
      have hlisted : b.layout.Listed (asked ++ [r]) := by
        rw [hlayout]
        exact h.ask hnew hl
      have hrest := ih hlisted (fun g hg => hnamed g (List.mem_cons_of_mem f hg)) hnodup
      rw [applyFields_of_ok hr hconfigure]
      exact ⟨hrest.1.trans ⟨fun hall => ⟨rfl, hall⟩, fun hall => hall.2⟩, hrest.2⟩

/-- A configuration that is well formed can be applied to a new aggregation unless it asks for an
aggregation of a composite field, and then it has the layout that its fields ask for. -/
theorem WellFormed.apply {c : Config} (h : c.WellFormed) (shards : Nat) (spread : String → Nat) :
    ((c.apply (.new shards spread)).2 = .ok () ↔
      ∀ r ∈ c.requests, r.field.IsComposite → r.kind = .auto) ∧
    ((c.apply (.new shards spread)).2 = .ok () →
      (c.apply (.new shards spread)).1.layout.Realizes c.requests ∧
      (c.apply (.new shards spread)).1.pairOnce = c.pairOnce ∧
      (c.apply (.new shards spread)).1.ordering = c.ordering) := by
  have hnamed : ∀ f ∈ c.fields, ∃ r, f.request? = some r :=
    fun f hf => (h.named f hf).imp fun _ hr => hr.1
  have hempty : (Aggregator.new shards spread).layout.Listed [] := .empty
  obtain ⟨hok, hlisted⟩ := applyFields_listed hempty hnamed h.nodup
  have haccepted : (∀ r ∈ c.requests, r.isAccepted = true) ↔
      ∀ r ∈ c.requests, r.field.IsComposite → r.kind = .auto :=
    forall₂_congr fun r hr => ColumnRequest.isAccepted_iff (exists_info_of_mem_requests hr)
  rw [← haccepted]
  unfold Config.apply
  rcases hfields : applyFields (.new shards spread) c.fields with ⟨b, e | _⟩
  · rw [hfields] at hok
    refine ⟨⟨fun h => ?_, fun h => ?_⟩, fun h => ?_⟩
    · cases h
    · cases hok.mpr h
    · cases h
  · rw [hfields] at hok hlisted
    refine ⟨⟨fun _ => hok.mp rfl, fun _ => rfl⟩, fun _ => ⟨?_, rfl, rfl⟩⟩
    exact (hlisted rfl).realizes fun r hr s hs => h.eq_of_sorted hr hs

/-- A configuration that passes its check takes effect exactly as written. It can be applied to a new
aggregation unless it asks for an aggregation of a composite field. Then each of its fields has
one column, the one it asks for; the other columns are the default columns of the fields that these
need; the results are ordered by the field that asks for an order, if there is one; and records
count for both directions exactly if a pair field is a key. The order of the fields does not
matter: the check and the application come out the same for all orders, with the same columns. -/
theorem apply_of_validate {c : Config} (h : c.validate = .ok ()) (shards : Nat)
    (spread : String → Nat) :
    let a := Aggregator.new shards spread
    let l := (c.apply a).1.layout
    c.fields.map FieldSetting.request? = c.requests.map some ∧
    ((c.apply a).2 = .ok () ↔ ∀ r ∈ c.requests, r.field.IsComposite → r.kind = .auto) ∧
    ((c.apply a).2 = .ok () → l.Realizes c.requests ∧ (c.apply a).1.pairOnce = c.pairOnce ∧
      (c.apply a).1.ordering = c.ordering) ∧
    ∀ fields : List FieldSetting, fields.Perm c.fields →
      let d := { c with fields := fields }
      let m := (d.apply a).1.layout
      d.validate = .ok () ∧ ((d.apply a).2 = .ok () ↔ (c.apply a).2 = .ok ()) ∧
      ((c.apply a).2 = .ok () → m.key.Perm l.key ∧ m.value.Perm l.value) := by
  intro a l
  have hc : c.WellFormed := c.validate_eq_ok_iff.mp h
  obtain ⟨hok, hrealizes⟩ := hc.apply shards spread
  refine ⟨hc.map_request?, hok, hrealizes, ?_⟩
  intro fields hfields d m
  have hd : d.WellFormed := hc.perm hfields
  have hrequests : ∀ r, r ∈ d.requests ↔ r ∈ c.requests :=
    fun r => (hfields.filterMap FieldSetting.request?).mem_iff
  obtain ⟨hok', hrealizes'⟩ := hd.apply shards spread
  have hsame : (d.apply a).2 = .ok () ↔ (c.apply a).2 = .ok () := by
    rw [hok, hok']
    exact forall_congr' fun r => imp_congr_left (hrequests r)
  refine ⟨d.validate_eq_ok_iff.mpr hd, hsame, fun happlied => ?_⟩
  exact (hrealizes' (hsame.mpr happlied)).1.perm (hrealizes happlied).1 hrequests

/-- Bits per second in front of two of the fields that they are computed from, an address with a
length, and a composite field that is carried along. -/
def ratesFirst : Config where
  logLevel := "info"
  shards := 2
  workers := 1
  pairOnce := true
  ordering := .numeric
  limit := 0
  output := .table
  fields := [⟨"bps", .auto, .none, 0, 0⟩, ⟨"bytes", .max, .asc, 0, 0⟩, ⟨"first", .key, .none, 0, 0⟩,
    ⟨"ip", .auto, .none, 24, 64⟩, ⟨"mpls", .auto, .none, 0, 0⟩]

/-- The fields that are listed behind the rate that needs them have the columns that they ask for,
the other two that it needs have default columns, and the results are ordered by the greatest
number of bytes. It is the same with the rate behind them. -/
theorem apply_ratesFirst :
    let a := Aggregator.new 2 fun _ => 0
    let c := ratesFirst
    let d := { c with fields := c.fields.reverse }
    let l := (c.apply a).1.layout
    let m := (d.apply a).1.layout
    (c.apply a).2 = .ok () ∧ l.Realizes c.requests ∧
      l.key.map (fun k => (k.field, k.kind, k.v4Bits)) =
        [(.first, .key, 0), (.addr, .key, 24), (⟨0x26⟩, .key, 0)] ∧
      l.value.map (fun v => (v.field, v.kind)) = [(.bitRate, .sum), (.bytes, .max),
        (.duration, .sum), (.last, .max)] ∧
      l.sortColumn = some ⟨.bytes, .value, 1, .asc, .u64⟩ ∧ l.isBidirectional = true ∧
      m.key ≠ l.key ∧ m.key.Perm l.key ∧ m.value.Perm l.value := by
  intro a c d l m
  obtain ⟨-, -, hrealizes, hperm⟩ :=
    apply_of_validate (c := ratesFirst) (by decide +kernel) 2 fun _ => 0
  have happlied : (c.apply a).2 = .ok () := by decide +kernel
  obtain ⟨-, -, hcolumns⟩ := hperm c.fields.reverse c.fields.reverse_perm
  obtain ⟨hkey, hvalue⟩ := hcolumns happlied
  refine ⟨happlied, (hrealizes happlied).1, ?_, ?_, ?_, ?_, ?_, hkey, hvalue⟩
  all_goals decide +kernel

end Config

end FlowTally
