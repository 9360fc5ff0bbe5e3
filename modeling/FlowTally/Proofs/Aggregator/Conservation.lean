import FlowTally.Proofs.Aggregator.Counting
import FlowTally.Proofs.Aggregator.Transparent
import FlowTally.Proofs.Aggregator.Walk
import Mathlib.Algebra.BigOperators.ModEq

/-!
# What is written is in the groups

Between two changes of the layout nothing is lost and nothing is made up. The counters
balance: every side of a record that was written made a group, was merged into one or was
skipped. And a column that sums words balances: the sum over all groups is the sum over all
writes, where a record counts once for each of its shares. The shares of a run carry both
accounts. The groups are a partition of them by key, and words add up in any grouping modulo
their size.
-/

namespace FlowTally

/-- The number of bits of the words of a type, if its values are words. -/
def ValueType.bits? : ValueType → Option Nat
  | .u8 => some 8
  | .u16 => some 16
  | .u32 => some 32
  | .u64 => some 64
  | _ => none

/-- The number that a value stands for. An absent value and one that is no word count as zero. -/
def Value.amount (v : Option Value) : Nat := ((v.bind toUInt64?).map UInt64.toNat).getD 0

/-- The number that a field of a record stands for. An unset field counts as zero. -/
def FlowRecord.amount {R : Type} [FlowRecord R] (r : R) (field : FieldId) : Nat :=
  match FlowRecord.get r field with
  | .ok v => Value.amount (some v)
  | .error _ => 0

namespace Operation

/-- Whether an operation leaves the columns in place. -/
def keepsColumns : Operation → Bool
  | .configure _ => false
  | .clear => false
  | _ => true

/-- Whether an operation writes a record. -/
def isWrite : Operation → Bool
  | @write _ _ _ => true
  | _ => false

/-- Whether a record that an operation writes holds values of a type for a field, if any. -/
def Types (field : FieldId) (type : ValueType) : Operation → Prop
  | @write _ _ r => ∀ v, FlowRecord.get r field = .ok v → v.type = type
  | _ => True

/-- Records of this library hold values of the type of a field. -/
theorem OnRecords.types {op : Operation} (h : op.OnRecords) {field : FieldId} {type : ValueType}
    (htype : field.type? = some type) : op.Types field type := by
  cases op with
  | write r =>
    obtain ⟨s, hs⟩ := h
    cases hs
    intro v hv
    have hread := Record.type_of_get hv
    rw [htype] at hread
    exact (Option.some.inj hread).symm
  | _ => trivial

end Operation

/-- Words add up to the number of their sum, up to their size. -/
theorem Value.amount_combine {a b : Value} {type : ValueType} {w : Nat} (ha : a.type = type)
    (hb : b.type = type) (hw : type.bits? = some w) :
    amount (some (Merge.sum.combine a b)) ≡ amount (some a) + amount (some b) [MOD 2 ^ w] := by
  subst ha
  cases a <;> cases b <;> cases hb <;> cases hw <;>
    simp [amount, toUInt64?, Merge.combine, Merge.words, Nat.mod_modEq]

/-- Words that are merged into one by their sum add up, up to their size. -/
theorem Value.amount_foldl {type : ValueType} {w : Nat} (hw : type.bits? = some w)
    {values : List (Option Value)} (htypes : ∀ v, some v ∈ values → v.type = type)
    {start : Option Value} (hstart : ∀ v, start = some v → v.type = type) :
    amount (values.foldl Merge.sum.apply start) ≡
      amount start + (values.map amount).sum [MOD 2 ^ w] := by
  induction values generalizing start with
  | nil => exact Nat.ModEq.refl _
  | cons new rest ih =>
    have hrest := @ih (fun v hv => htypes v (List.mem_cons_of_mem new hv))
      (Merge.sum.apply start new)
    have hnew : ∀ v, new = some v → v.type = type := fun v hv => htypes v (hv ▸ List.mem_cons_self)
    rw [List.foldl_cons, List.map_cons, List.sum_cons, ← Nat.add_assoc]
    cases start with
    | none =>
      rw [show amount none = 0 from rfl, Nat.zero_add]
      exact hrest hnew
    | some old =>
      cases new with
      | none => exact hrest hstart
      | some new =>
        have hcombined : ∀ v, some (Merge.sum.combine old new) = some v → v.type = type := by
          intro v hv
          obtain rfl := Option.some.inj hv
          rw [Merge.type_combine, hstart old rfl]
        exact (hrest hcombined).trans ((amount_combine (hstart old rfl) (hnew new rfl) hw).add_right _)

/-- The merged value of a column that sums words is the sum of theirs, up to their size. -/
theorem Column.amount_total {c : Column} {i w : Nat} (hsum : c.merge = .sum)
    (hw : c.type.bits? = some w) {shares : List Share}
    (htypes : ∀ s ∈ shares, ∀ v, s.values[i]?.join = some v → v.type = c.type) :
    Value.amount (c.total i shares) ≡
      (shares.map fun s => Value.amount s.values[i]?.join).sum [MOD 2 ^ w] := by
  have htypes' : ∀ v, some v ∈ shares.map (fun s => s.values[i]?.join) → v.type = c.type := by
    intro v hv
    obtain ⟨s, hs, heq⟩ := List.mem_map.mp hv
    exact htypes s hs v heq
  have hfold := @Value.amount_foldl _ _ hw _ htypes' none fun v hv => nomatch hv
  rw [List.foldl_map, List.map_map, show Value.amount none = 0 from rfl, Nat.zero_add] at hfold
  rw [Column.total, hsum]
  exact hfold

/-- Shares are parted by their keys. -/
theorem Share.sum_withKey {keys : List String} (hnodup : keys.Nodup) (f : Share → Nat)
    {shares : List Share} (hkeys : ∀ s ∈ shares, s.key ∈ keys) :
    (keys.map fun key => ((withKey key shares).map f).sum).sum = (shares.map f).sum := by
  induction shares with
  | nil => simp [withKey]
  | cons s rest ih =>
    have hrest := ih fun t ht => hkeys t (List.mem_cons_of_mem s ht)
    have hone : (keys.map fun key => if s.key = key then f s else 0).sum = f s := by
      rw [List.sum_map_eq_nsmul_single s.key _ fun key hne _ => if_neg hne.symm,
        List.count_eq_one_of_mem hnodup (hkeys s List.mem_cons_self), one_nsmul, if_pos rfl]
    have hsplit : ∀ key, ((withKey key (s :: rest)).map f).sum =
        (if s.key = key then f s else 0) + ((withKey key rest).map f).sum := by
      intro key
      by_cases hkey : s.key = key <;> simp [withKey, hkey]
    simp only [hsplit]
    rw [List.sum_map_add, hone, hrest, List.map_cons, List.sum_cons]

/-- The groups of a table hold what the shares bring to a column that sums words. -/
theorem TallyTable.SumsUp.sum_entries {t : TallyTable} {columns : List Column}
    {shares : List Share} (h : t.SumsUp columns shares) (hplaced : t.Placed) {i w : Nat}
    {c : Column} (hc : columns[i]? = some c) (hderived : c.field.isDerived = false)
    (hsum : c.merge = .sum) (hw : c.type.bits? = some w)
    (htypes : ∀ s ∈ shares, ∀ v, s.values[i]?.join = some v → v.type = c.type) :
    (t.entries.map fun e => Value.amount e.2.values[i]?.join).sum ≡
      (shares.map fun s => Value.amount s.values[i]?.join).sum [MOD 2 ^ w] := by
  have hkeys : ∀ s ∈ shares, s.key ∈ t.entries.map (·.1) := by
    intro s hs
    rw [hplaced.mem_keys_iff, Option.isSome_iff_exists]
    exact (h.held_iff s.key).mpr ⟨s, hs, rfl⟩
  rw [← Share.sum_withKey hplaced.nodup_keys _ hkeys, List.map_map]
  refine Nat.ModEq.listSum_map fun e he => ?_
  have hgroup := h.sumOf e.1 e.2 (hplaced.mem_entries_iff.mp he)
  rw [hgroup.values_eq i c hc hderived, Option.join_some]
  exact Column.amount_total hsum hw fun s hs => htypes s (List.mem_filter.mp hs).1

namespace Layout

variable {R : Type} [FlowRecord R] {l : Layout} {once : Bool} {r : R}

/-- What is read for a value column stands at its position. -/
theorem getElem?_columnValues {columns : List Column} {values : List (Option Value)}
    (h : columnValues r columns = .ok values) {i : Nat} {c : Column} (hc : columns[i]? = some c) :
    ∃ v, columnValue r c = .ok v ∧ values[i]? = some v := by
  induction columns generalizing values i with
  | nil => simp at hc
  | cons d rest ih =>
    unfold columnValues at h
    split at h
    · cases h
    · next v hv =>
      split at h
      · cases h
      · next vs hvs =>
        obtain rfl := Except.ok.inj h
        cases i with
        | zero =>
          obtain rfl := Option.some.inj hc
          exact ⟨v, hv, rfl⟩
        | succ i => exact ih hvs hc

/-- The value of a share for a value column is what its record holds there. -/
theorem value_of_mem_shares {s : Share} (hs : s ∈ l.shares once r) {i : Nat} {c : Column}
    (hc : l.value[i]? = some c) :
    Value.amount s.values[i]?.join = FlowRecord.amount r c.field ∧
      ∀ v, s.values[i]?.join = some v → FlowRecord.get r c.field = .ok v := by
  obtain ⟨v, hread, hv⟩ := getElem?_columnValues (exists_side_of_mem_shares hs).2 hc
  rw [hv, Option.join_some]
  unfold columnValue at hread
  unfold FlowRecord.amount
  split at hread
  · next w hw =>
    obtain rfl := Except.ok.inj hread
    exact ⟨by rw [hw], fun u hu => by rw [hw, Option.some.inj hu]⟩
  · next hunset =>
    obtain rfl := Except.ok.inj hread
    exact ⟨by rw [hunset]; rfl, fun u hu => nomatch hu⟩
  · cases hread

/-- A record brings at most one share for each side. -/
theorem length_shares_le : (l.shares once r).length ≤ if l.isBidirectional then 2 else 1 := by
  unfold shares
  repeat' split
  all_goals simp

end Layout

namespace Aggregator

section

variable {R : Type} [FlowRecord R]

/-- The number of groups that a record is added to, counted with repetition: none if it is refused,
one without a destination side or if that is skipped, and two otherwise. -/
def parts (a : Aggregator) (r : R) : Nat :=
  match a.contribution r with
  | .error _ => 0
  | .ok c =>
    match c.destination with
    | none => 1
    | some destination =>
      if a.pairOnce && Value.keyText destination = Value.keyText c.keys then 1 else 2

/-- A record is added to a group for each of its shares. -/
theorem parts_eq (a : Aggregator) (r : R) :
    a.parts r = (a.layout.shares a.pairOnce r).length := by
  unfold parts
  rcases a.shares_of_contribution r with ⟨c, hc, hshares⟩ | ⟨e, he, hshares⟩
  · rw [hc, hshares, Contribution.shares]
    dsimp only
    cases c.destination with
    | none => rfl
    | some destination =>
      by_cases honce : a.pairOnce = true ∧ Value.keyText destination = Value.keyText c.keys <;>
        simp [honce]
  · rw [he, hshares]
    rfl

end

/-- What an operation brings to a field: the number of the record it writes, once for each group
that the record is added to. -/
def brings (a : Aggregator) (field : FieldId) : Operation → Nat
  | @Operation.write _ _ r => a.parts r * FlowRecord.amount r field
  | _ => 0

/-- What operations one after the other bring to a field. -/
def brought (a : Aggregator) (field : FieldId) : List Operation → Nat
  | [] => 0
  | op :: rest => a.brings field op + (a.step op).brought field rest

/-- The shares of the record that an operation writes, if it writes one. -/
def gathers (a : Aggregator) : Operation → List (List Share)
  | @Operation.write _ _ r => [a.layout.shares a.pairOnce r]
  | _ => []

/-- The shares of the records that operations one after the other write. -/
def gathered (a : Aggregator) : List Operation → List (List Share)
  | [] => []
  | op :: rest => a.gathers op ++ (a.step op).gathered rest

section

variable {a a' : Aggregator} {op : Operation} {ops : List Operation}

/-- Where the counters of writes and the number of groups stay nothing is counted. -/
theorem Counted.still (hcounters : a'.counters.ofWrites = a.counters.ofWrites)
    (hsize : a'.table.size = a.table.size) : a.Counted a' [] := by
  obtain ⟨hwritten, hrefused, hcreated, hmerged, hskipped, -⟩ := Counters.mk.inj hcounters
  constructor
  · exact hwritten
  · exact hrefused
  · rw [hcreated, hsize]
  · rw [hcreated, hmerged]
    rfl
  · rw [hskipped]
    simp

/-- Reading counts nothing. -/
theorem Counted.read (h : a.ReadsTo a') : a.Counted a' [] :=
  .still h.ofWrites_eq h.groupCount_eq

/-- An operation that leaves the columns counts what it gathers. -/
theorem Counted.step (h : a.table.Placed) (hop : op.keepsColumns = true) :
    a.Counted (a.step op) (a.gathers op) ∧ (a.step op).layout = a.layout := by
  cases op with
  | configure r => cases hop
  | setPairOnce on => exact ⟨.still rfl rfl, rfl⟩
  | setOrdering ordering => exact ⟨.still rfl rfl, rfl⟩
  | write r => exact ⟨.write h r, (a.write_keeps r).1⟩
  | firstPosition => exact ⟨.refl a, rfl⟩
  | nextPosition c => exact ⟨.refl a, rfl⟩
  | materialize c out =>
    exact ⟨.read (a.readsTo_materialize c out), (a.readsTo_materialize c out).keeps.1⟩
  | report format limit =>
    exact ⟨.read (a.readsTo_report format limit), (a.readsTo_report format limit).keeps.1⟩
  | clear => cases hop

/-- Operations that leave the columns count what they gather. -/
theorem Counted.run {b : Ledger} (h : a.Follows b) (hops : ∀ op ∈ ops, op.keepsColumns = true) :
    a.Counted (a.run ops) (a.gathered ops) ∧ (a.run ops).layout = a.layout := by
  induction ops generalizing a b with
  | nil => exact ⟨.refl a, rfl⟩
  | cons op rest ih =>
    obtain ⟨hstep, hlayout⟩ := Counted.step h.placed (hops op List.mem_cons_self)
    obtain ⟨hrest, hlayout'⟩ := ih (h.step op) fun o ho => hops o (List.mem_cons_of_mem op ho)
    exact ⟨hstep.trans hrest hlayout, hlayout'.trans hlayout⟩

/-- A ledger notes what is gathered. -/
theorem Follows.shares_run {b : Ledger} (h : a.Follows b)
    (hops : ∀ op ∈ ops, op.keepsColumns = true) :
    (b.run ops).shares = b.shares ++ (a.gathered ops).flatten := by
  induction ops generalizing a b with
  | nil => simp [Ledger.run, gathered]
  | cons op rest ih =>
    have hstep : (b.step op).shares = b.shares ++ (a.gathers op).flatten := by
      cases op with
      | configure r => cases hops _ List.mem_cons_self
      | clear => cases hops _ List.mem_cons_self
      | write r => simp [Ledger.step, gathers, h.layout_eq, h.pairOnce_eq]
      | _ => simp [Ledger.step, gathers]
    have hrest := ih (h.step op) fun o ho => hops o (List.mem_cons_of_mem op ho)
    rw [gathered, List.flatten_append, ← List.append_assoc, ← hstep, ← hrest]
    rfl

/-- Each gathered record brings at most one share for each side. -/
theorem length_of_mem_gathered (hops : ∀ op ∈ ops, op.keepsColumns = true) {b : Ledger}
    (h : a.Follows b) {shares : List Share} (hshares : shares ∈ a.gathered ops) :
    shares.length ≤ if a.layout.isBidirectional then 2 else 1 := by
  induction ops generalizing a b with
  | nil => exact absurd hshares List.not_mem_nil
  | cons op rest ih =>
    have hlayout := (Counted.step h.placed (hops op List.mem_cons_self)).2
    rcases List.mem_append.mp hshares with hone | hmore
    · cases op with
      | write r =>
        obtain rfl := List.mem_singleton.mp hone
        exact Layout.length_shares_le
      | _ => exact absurd hone List.not_mem_nil
    · rw [← hlayout]
      exact ih (fun o ho => hops o (List.mem_cons_of_mem op ho)) (h.step op) hmore

/-- There is one list of shares for each write. -/
theorem length_gathered (a : Aggregator) (ops : List Operation) :
    (a.gathered ops).length = ops.countP Operation.isWrite := by
  induction ops generalizing a with
  | nil => rfl
  | cons op rest ih =>
    rw [gathered, List.length_append, ih, List.countP_cons, Nat.add_comm]
    cases op <;> rfl

/-- What is gathered for a column is what is brought to its field. -/
theorem sum_gathered {b : Ledger} (h : a.Follows b) (hops : ∀ op ∈ ops, op.keepsColumns = true)
    {i : Nat} {c : Column} (hc : a.layout.value[i]? = some c) :
    ((a.gathered ops).flatten.map fun s => Value.amount s.values[i]?.join).sum =
      a.brought c.field ops := by
  induction ops generalizing a b with
  | nil => rfl
  | cons op rest ih =>
    have hlayout := (Counted.step h.placed (hops op List.mem_cons_self)).2
    have hstep : ((a.gathers op).flatten.map fun s => Value.amount s.values[i]?.join).sum =
        a.brings c.field op := by
      cases op with
      | write r =>
        rw [gathers, brings, parts_eq, List.flatten_singleton, List.map_congr_left
          fun s hs => (Layout.value_of_mem_shares hs hc).1, List.map_const', List.sum_replicate,
          smul_eq_mul]
      | _ => rfl
    rw [gathered, brought, List.flatten_append, List.map_append, List.sum_append, hstep,
      ih (h.step op) (fun o ho => hops o (List.mem_cons_of_mem op ho)) (hlayout ▸ hc)]

/-- Where the records hold values of a type for the field of a column, so do their shares. -/
theorem type_of_mem_gathered {b : Ledger} (h : a.Follows b)
    (hops : ∀ op ∈ ops, op.keepsColumns = true) {i : Nat} {c : Column}
    (hc : a.layout.value[i]? = some c) (htypes : ∀ op ∈ ops, op.Types c.field c.type)
    {s : Share} (hs : s ∈ (a.gathered ops).flatten) {v : Value}
    (hv : s.values[i]?.join = some v) : v.type = c.type := by
  induction ops generalizing a b with
  | nil => exact absurd hs List.not_mem_nil
  | cons op rest ih =>
    have hlayout := (Counted.step h.placed (hops op List.mem_cons_self)).2
    rw [gathered, List.flatten_append] at hs
    rcases List.mem_append.mp hs with hone | hmore
    · cases op with
      | write r =>
        rw [gathers, List.flatten_singleton] at hone
        exact htypes _ List.mem_cons_self v ((Layout.value_of_mem_shares hone hc).2 v hv)
      | _ => exact absurd hone List.not_mem_nil
    · exact ih (h.step op) (fun o ho => hops o (List.mem_cons_of_mem op ho)) (hlayout ▸ hc)
        (fun o ho => htypes o (List.mem_cons_of_mem op ho)) hmore

/-- From no groups on, the groups that were made are those there are. -/
theorem Counted.created_eq_size {brought : List (List Share)} (h : a.Counted a' brought)
    (hzero : a.counters = .zero) (hempty : ∀ shard ∈ a.table.shards, shard = []) :
    a'.counters.groupsCreated = a'.groupCount := by
  have hsize : a.table.size = 0 := by
    rw [TallyTable.size, TallyTable.entries, List.flatten_eq_nil_iff.mpr hempty, List.length_nil]
  have hgrown := h.created_eq
  rwa [hsize, hzero, Nat.add_zero, Counters.zero, Nat.zero_add] at hgrown

/-- The records that were written and those that were refused are all. -/
theorem Counted.writes_eq {brought : List (List Share)} (h : a.Counted a' brought)
    (hzero : a.counters = .zero) :
    a'.counters.recordsWritten + a'.counters.writeErrors = brought.length := by
  have hwritten := h.written_eq
  have hrefused := h.refused_eq
  have hall := List.length_eq_countP_add_countP List.isEmpty (l := brought)
  simp only [hzero, Counters.zero, Nat.zero_add] at hwritten hrefused
  simp only [Bool.not_eq_true, Bool.decide_eq_false] at hall
  omega

/-- Every side of a record that was written made a group, was merged into one or was skipped. -/
theorem Counted.sides_eq {brought : List (List Share)} (h : a.Counted a' brought)
    (hzero : a.counters = .zero)
    (hsides : ∀ shares ∈ brought, shares.length ≤ if a.layout.isBidirectional then 2 else 1) :
    a'.counters.groupsCreated + a'.counters.groupsMerged + a'.counters.pairsSkipped =
      a'.counters.recordsWritten * if a.layout.isBidirectional then 2 else 1 := by
  have hadded := h.added_eq
  have hskipped := h.skipped_eq
  have hwritten := h.written_eq
  simp only [hzero, Counters.zero, Nat.zero_add] at hadded hskipped hwritten
  rw [hadded, hskipped, hwritten]
  clear hadded hskipped hwritten h
  induction brought with
  | nil => simp
  | cons shares rest ih =>
    have hfirst := hsides shares List.mem_cons_self
    have hrest := ih fun other hother => hsides other (List.mem_cons_of_mem shares hother)
    rw [List.flatten_cons, List.length_append, List.countP_cons, List.countP_cons]
    cases shares with
    | nil => simpa using hrest
    | cons s more =>
      rw [if_pos (show (!(s :: more).isEmpty) = true from rfl)]
      cases hpair : a.layout.isBidirectional with
      | false =>
        simp only [hpair, Bool.false_eq_true, if_false, List.length_cons] at hfirst hrest ⊢
        omega
      | true =>
        simp only [hpair, if_true, List.length_cons, decide_eq_true_eq] at hfirst hrest ⊢
        split <;> omega

end

/-- Requests on a new aggregation make no groups and are not counted. -/
theorem start_of_requests (n : Nat) (spread : String → Nat) (requests : List ColumnRequest) :
    let a := (new n spread).run (requests.map .configure)
    a.Sound ∧ a.counters = .zero ∧ ∀ shard ∈ a.table.shards, shard = [] := by
  refine run_induction (P := fun a => a.Sound ∧ a.counters = .zero ∧
    ∀ shard ∈ a.table.shards, shard = []) ⟨.new n spread, rfl, TallyTable.shards_new⟩ ?_
  rintro a op hop ⟨hsound, hcounters, hempty⟩
  obtain ⟨r, -, rfl⟩ := List.mem_map.mp hop
  refine ⟨hsound.configure r, ?_⟩
  rcases a.configure_cases r with ⟨-, hrefused⟩ | ⟨l, -, haccepted⟩
  · rw [step, hrefused]
    exact ⟨hcounters, hempty⟩
  · rw [step, haccepted]
    refine ⟨hcounters, ?_⟩
    dsimp only
    split
    · exact hempty
    · exact TallyTable.shards_clear

/-- A row shows the merged value of a column whose cell no other column writes. -/
theorem amount_record {a : Aggregator} {tally : Tally} (hl : a.layout.Valid)
    (hfits : tally.Fits a.layout) {i : Nat} {c : Column} (hc : a.layout.value[i]? = some c)
    (halone : ∀ f ∈ a.layout.fields, f ≠ c.field → Record.cellOf c.field ∉ f.cells) :
    FlowRecord.amount (tally.record a.layout) c.field = Value.amount tally.values[i]?.join := by
  have hlt : i < tally.values.length := by
    rw [← hfits.values.length_eq]
    exact (List.getElem?_eq_some_iff.mp hc).1
  have hzip : (a.layout.value.zip tally.values)[i]? = some (c, tally.values[i]) := by
    rw [List.getElem?_zip_eq_some]
    exact ⟨hc, List.getElem?_eq_getElem hlt⟩
  have hmem : (c.field, tally.values[i]) ∈ a.layout.slots tally :=
    List.mem_append_right _ (List.mem_map.mpr ⟨_, List.mem_of_getElem? hzip, rfl⟩)
  have hget := (get_record hl hfits hmem).2 halone
  rw [List.getElem?_eq_getElem hlt, Option.join_some, FlowRecord.amount]
  simp only [FlowRecord.get, hget]
  cases tally.values[i] <;> rfl

/-- The rows show the sums of the groups in a column whose cell no other column writes. -/
theorem Sound.sum_rows {a : Aggregator} (h : a.Sound) {i : Nat} {c : Column}
    (hc : a.layout.value[i]? = some c) (hderived : c.field.isDerived = false)
    (halone : ∀ f ∈ a.layout.fields, f ≠ c.field → Record.cellOf c.field ∉ f.cells) :
    (a.rows.map fun r => FlowRecord.amount r c.field).sum =
      (a.table.entries.map fun e => Value.amount e.2.values[i]?.join).sum := by
  have hrow : ∀ e ∈ a.table.ordered a.layout a.ordering,
      FlowRecord.amount (e.2.record a.layout) c.field = Value.amount e.2.values[i]?.join := by
    intro e he
    obtain ⟨j, hj⟩ := List.mem_iff_getElem?.mp he
    exact amount_record h.valid (h.fits_of_ordered hj) hc halone
  have hrows : a.rows.map (fun r => FlowRecord.amount r c.field) =
      (a.table.ordered a.layout a.ordering).map fun e => Value.amount e.2.values[i]?.join := by
    rw [rows, List.map_map]
    exact List.map_congr_left hrow
  rw [hrows, (a.table.ordered_perm.map _).sum_eq, TallyTable.entries_mapTallies, List.map_map]
  refine congrArg List.sum (List.map_congr_left fun e _ => ?_)
  dsimp only [Function.comp_apply]
  rw [Derived.values_fill_of_not_derived]
  intro d hd
  obtain rfl := Option.some.inj (hc.symm.trans hd)
  exact of_decide_eq_false hderived

/-- Conservation. A new aggregation is configured, and then it is driven by operations that leave
the columns in place. The groups that were made are those there are. Every side of each record that
was written made a group, was merged into one or was skipped, and every write was either counted
as written or as refused. In a column that sums words and is not derived, the groups together hold
what the writes brought, up to the size of the words: the number of each record, once for each
group that it was added to. So do the rows, where no other column writes the cell of the field. -/
theorem conserved_run (n : Nat) (spread : String → Nat) (requests : List ColumnRequest)
    {ops : List Operation} (hops : ∀ op ∈ ops, op.keepsColumns = true) :
    let start := (new n spread).run (requests.map .configure)
    let a := start.run ops
    a.layout = start.layout ∧
    a.counters.groupsCreated = a.groupCount ∧
    (a.counters.groupsCreated + a.counters.groupsMerged + a.counters.pairsSkipped =
      a.counters.recordsWritten * if a.layout.isBidirectional then 2 else 1) ∧
    a.counters.recordsWritten + a.counters.writeErrors = ops.countP Operation.isWrite ∧
    ∀ (i : Nat) (c : Column) (w : Nat), a.layout.value[i]? = some c → c.field.isDerived = false →
      c.merge = .sum → c.type.bits? = some w →
      ((∀ op ∈ ops, op.Types c.field c.type) →
        (a.table.entries.map fun e => Value.amount e.2.values[i]?.join).sum ≡
          start.brought c.field ops [MOD 2 ^ w]) ∧
      ((∀ op ∈ ops, op.OnRecords) →
        (∀ f ∈ a.layout.fields, f ≠ c.field → Record.cellOf c.field ∉ f.cells) →
        (∀ j r, a.rows[j]? = some r → (a.materialize ⟨j⟩ Record.empty).2 = (r, .ok ())) ∧
        (a.rows.map fun r => FlowRecord.amount r c.field).sum ≡
          start.brought c.field ops [MOD 2 ^ w]) := by
  intro start a
  obtain ⟨hsound, hzero, hempty⟩ := start_of_requests n spread requests
  have hfollows : start.Follows ⟨start.layout, start.pairOnce, []⟩ :=
    ⟨rfl, rfl, hsound.valid, .of_empty hempty, .of_empty hempty⟩
  have hafter : a.Follows _ := hfollows.run ops
  obtain ⟨hcounted, hlayout⟩ := Counted.run hfollows hops
  have hshares := hfollows.shares_run hops
  rw [List.nil_append] at hshares
  refine ⟨hlayout, hcounted.created_eq_size hzero hempty, ?_, ?_, fun i c w hc hderived hsum hw => ?_⟩
  · have hsides := hcounted.sides_eq hzero fun shares => length_of_mem_gathered hops hfollows
    rwa [← hlayout] at hsides
  · rw [← length_gathered start]
    exact hcounted.writes_eq hzero
  have hc' : start.layout.value[i]? = some c := hlayout ▸ hc
  have hgroups : (∀ op ∈ ops, op.Types c.field c.type) →
      (a.table.entries.map fun e => Value.amount e.2.values[i]?.join).sum ≡
        start.brought c.field ops [MOD 2 ^ w] := by
    intro htypes
    have hsums := hafter.sumsUp
    rw [hshares] at hsums
    rw [← sum_gathered hfollows hops hc']
    exact hsums.sum_entries hafter.placed hc hderived hsum hw fun s hs v hv =>
      type_of_mem_gathered hfollows hops hc' htypes hs hv
  refine ⟨hgroups, fun hrecords halone => ?_⟩
  have hreachable : a.RecordReachable := by
    refine ⟨n, spread, requests.map .configure ++ ops, fun op hop => ?_,
      by rw [run, List.foldl_append]; rfl⟩
    rcases List.mem_append.mp hop with hop | hop
    · obtain ⟨r, -, rfl⟩ := List.mem_map.mp hop
      trivial
    · exact hrecords op hop
  have hafterSound := hreachable.sound
  refine ⟨fun j r hr => ?_, ?_⟩
  · rw [(materialize_row hafterSound hreachable.reachable.coherent (.inl rfl) hr rfl).1]
  · rw [hafterSound.sum_rows hc hderived halone]
    have hcatalog := hafterSound.valid.fromCatalog c
      (List.mem_append_right _ (List.mem_of_getElem? hc))
    exact hgroups fun op hop => (hrecords op hop).types hcatalog.type_eq

/-- Ports are grouped by, and bytes are summed. -/
def bytesByPort : List ColumnRequest := [⟨.port, .key, .none, 0, 0⟩, ⟨.bytes, .sum, .none, 0, 0⟩]

/-- A record between two ports, one from a port to itself that counts once, and one that is
refused. -/
def portWrites : List Operation :=
  [.write (fillRecord Record.empty [(.srcPort, .u16 80), (.dstPort, .u16 53), (.bytes, .u64 100)]).1,
   .setPairOnce true, .nextPosition ⟨0⟩,
   .write (fillRecord Record.empty [(.srcPort, .u16 22), (.dstPort, .u16 22), (.bytes, .u64 7)]).1,
   .write Record.unallocated]

/-- Three groups were made and one side was skipped, two records were written and one was refused,
and the rows show twice the bytes of the first record and once those of the second. -/
theorem conserved_portWrites :
    let start := (new 3 TallyTable.polynomialSpread).run (bytesByPort.map .configure)
    let a := start.run portWrites
    a.groupCount = 3 ∧ a.counters.groupsCreated = 3 ∧
      a.counters.groupsCreated + a.counters.groupsMerged + a.counters.pairsSkipped = 2 * 2 ∧
      a.counters.recordsWritten + a.counters.writeErrors = 3 ∧
      (a.rows.map fun r => FlowRecord.amount r .bytes).sum ≡ 207 [MOD 2 ^ 64] := by
  intro start a
  have hkeeps : ∀ op ∈ portWrites, op.keepsColumns = true := by
    simp [portWrites, Operation.keepsColumns]
  obtain ⟨-, hcreated, hsides, hwrites, hcolumns⟩ :=
    conserved_run 3 TallyTable.polynomialSpread bytesByPort hkeeps
  have hcount : a.groupCount = 3 := by decide +kernel
  have hpair : a.layout.isBidirectional = true := by decide +kernel
  have hwritten : a.counters.recordsWritten = 2 := by decide +kernel
  rw [hwritten, if_pos hpair] at hsides
  refine ⟨hcount, hcreated.trans hcount, hsides, hwrites, ?_⟩
  have hrecords : ∀ op ∈ portWrites, op.OnRecords := by
    simp [portWrites, Operation.OnRecords]
  have hbrought : start.brought .bytes portWrites = 207 := by decide +kernel
  rw [← hbrought]
  exact ((hcolumns 0 ⟨.bytes, .sum, .none, 0, 0, .u64, .sum⟩ 64 (by decide +kernel) (by decide) rfl
    rfl).2 hrecords (by decide +kernel)).2

/-- A member of a pair and the pair are summed. -/
def memberSums : List ColumnRequest := [⟨.dstPort, .sum, .none, 0, 0⟩, ⟨.port, .sum, .none, 0, 0⟩]

/-- One record between two ports. -/
def memberWrites : List Operation :=
  [.write (fillRecord Record.empty [(.srcPort, .u16 80), (.dstPort, .u16 53)]).1]

/-- The sum of the pair is written over that of its member, so the rows do not hold what the
record brought. -/
theorem sum_rows_memberWrites :
    let start := (new 1 TallyTable.polynomialSpread).run (memberSums.map .configure)
    let a := start.run memberWrites
    let c : Column := ⟨.dstPort, .sum, .none, 0, 0, .u16, .sum⟩
    (∀ op ∈ memberWrites, op.keepsColumns = true ∧ op.OnRecords) ∧
      a.layout.value[0]? = some c ∧ c.field.isDerived = false ∧ c.type.bits? = some 16 ∧
      start.brought .dstPort memberWrites = 53 ∧
      (a.rows.map fun r => FlowRecord.amount r .dstPort).sum = 80 ∧ ¬80 ≡ 53 [MOD 2 ^ 16] := by
  intro start a c
  have hrecords : ∀ op ∈ memberSums.map Operation.configure ++ memberWrites, op.OnRecords := by
    simp [memberSums, memberWrites, Operation.OnRecords]
  have hreachable : a.RecordReachable :=
    ⟨1, TallyTable.polynomialSpread, memberSums.map .configure ++ memberWrites, hrecords, rfl⟩
  have hgroups : [("", ⟨[], [some (.u16 53), some (.u16 80)]⟩)] =
      a.table.ordered a.layout a.ordering :=
    hreachable.sound.placed.eq_ordered (by decide +kernel) (by decide +kernel)
  refine ⟨?_, by decide +kernel, by decide, rfl, by decide +kernel, ?_, by decide⟩
  · simp [memberWrites, Operation.keepsColumns, Operation.OnRecords]
  · rw [rows, ← hgroups]
    decide +kernel

end Aggregator

end FlowTally
