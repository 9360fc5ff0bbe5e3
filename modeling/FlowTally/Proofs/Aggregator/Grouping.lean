import FlowTally.Proofs.Aggregator.Operation

/-!
# The groups are those of the shares

A ledger keeps what an aggregation is meant to sum up: the layout, and the shares of
all records since the groups were last dropped, in the order of the writes. A group
stands for the shares with its key. Its key values are those of the first of them, and
each of its values that is not derived is the merge of theirs, from the first to the
last.
-/

namespace FlowTally

/-- The merged value of one column over shares, in their order, from an absent one. -/
def Column.total (c : Column) (i : Nat) (shares : List Share) : Option Value :=
  shares.foldl (fun v s => c.merge.apply v s.values[i]?.join) none

/-- A group sums up shares. -/
structure Tally.SumOf (columns : List Column) (shares : List Share) (t : Tally) : Prop where
  /-- There is a first share, and the group has its key values. -/
  keys_eq : shares.head?.map Share.keys = some t.keys
  /-- There is one value per column. -/
  length_eq : t.values.length = columns.length
  /-- A value that is not derived is the merged value of its column. -/
  values_eq : ∀ (i : Nat) (c : Column), columns[i]? = some c → c.field.isDerived = false →
    t.values[i]? = some (c.total i shares)

/-- The shares with one key. -/
def Share.withKey (key : String) (shares : List Share) : List Share :=
  shares.filter fun s => decide (s.key = key)

/-- A table sums up shares. -/
structure TallyTable.SumsUp (t : TallyTable) (columns : List Column) (shares : List Share) :
    Prop where
  /-- There is a group for each key of a share, and no other. -/
  held_iff : ∀ key, (∃ tally, t.find? key = some tally) ↔ ∃ s ∈ shares, s.key = key
  /-- Each group sums up the shares with its key. -/
  sumOf : ∀ key tally, t.find? key = some tally →
    tally.SumOf columns (Share.withKey key shares)

/-- What an aggregation is meant to sum up. -/
structure Ledger where
  /-- The columns. -/
  layout : Layout
  /-- Whether a record whose two sides have one key counts once. -/
  pairOnce : Bool
  /-- The shares since the groups were last dropped. -/
  shares : List Share

namespace Ledger

/-- The ledger at the start. -/
def empty : Ledger := ⟨.empty, false, []⟩

/-- The ledger after an operation. The shares are dropped when a layout of another shape
is put in place and when everything is cleared. -/
def step (b : Ledger) : Operation → Ledger
  | .configure r =>
    match b.layout.configure r with
    | none => b
    | some l => { b with
        layout := l
        shares := if l.shape = b.layout.shape then b.shares else [] }
  | .setPairOnce on => { b with pairOnce := on }
  | @Operation.write _ _ r => { b with shares := b.shares ++ b.layout.shares b.pairOnce r }
  | .clear => empty
  | _ => b

/-- The ledger after operations one after the other. -/
def run (b : Ledger) (ops : List Operation) : Ledger := ops.foldl step b

end Ledger

/-- Merging keeps the number of values. -/
@[simp] theorem length_mergeValues (columns : List Column) (old new : List (Option Value)) :
    (mergeValues columns old new).length = old.length := by
  induction columns generalizing old new with
  | nil => rfl
  | cons c rest ih =>
    cases old with
    | nil => rfl
    | cons o old =>
      cases new with
      | nil => rfl
      | cons n new => rw [mergeValues, List.length_cons, ih, List.length_cons]

/-- A merged value is the old one, or the merge of its column with the new one if there are
both. -/
theorem getElem?_mergeValues_eq (columns : List Column) (old new : List (Option Value)) (i : Nat) :
    (mergeValues columns old new)[i]? = old[i]?.map fun o =>
      match columns[i]?, new[i]? with
      | some c, some n => c.merge.apply o n
      | _, _ => o := by
  induction columns generalizing old new i with
  | nil => simp [mergeValues]
  | cons c rest ih =>
    cases old with
    | nil => rfl
    | cons o old =>
      cases new with
      | nil => simp [mergeValues]
      | cons n new =>
        cases i with
        | zero => rfl
        | succ i => exact ih old new i

/-- Each column merges its own two values. -/
theorem getElem?_mergeValues {columns : List Column} {old new : List (Option Value)} {i : Nat}
    {c : Column} {o n : Option Value} (hc : columns[i]? = some c) (ho : old[i]? = some o)
    (hn : new[i]? = some n) : (mergeValues columns old new)[i]? = some (c.merge.apply o n) := by
  rw [getElem?_mergeValues_eq, hc, ho, hn, Option.map_some]

/-- The shares with a key, with one more share behind them. -/
theorem Share.withKey_append (key : String) (shares : List Share) (s : Share) :
    withKey key (shares ++ [s]) =
      if s.key = key then withKey key shares ++ [s] else withKey key shares := by
  unfold withKey
  by_cases hkey : s.key = key
  · simp [List.filter_append, hkey]
  · simp [List.filter_append, hkey]

/-- There are shares with the key of a share. -/
theorem Share.withKey_eq_nil {key : String} {shares : List Share} :
    withKey key shares = [] ↔ ¬∃ s ∈ shares, s.key = key := by
  simp [withKey]

namespace Tally.SumOf

variable {columns : List Column} {shares : List Share} {t : Tally}

/-- A new group sums up its share. -/
theorem single {s : Share} (hlength : s.values.length = columns.length) :
    SumOf columns [s] ⟨s.keys, s.values⟩ where
  keys_eq := rfl
  length_eq := hlength
  values_eq i c hc _ := by
    have hlt : i < s.values.length := by
      rw [hlength]
      exact (List.getElem?_eq_some_iff.mp hc).1
    simp only [Column.total, List.foldl_cons, List.foldl_nil, Merge.apply]
    rw [List.getElem?_eq_getElem hlt, Option.join_some]

/-- A share that is merged into a group is summed up behind the others. -/
theorem merge (h : SumOf columns shares t) {s : Share}
    (hlength : s.values.length = columns.length) :
    SumOf columns (shares ++ [s])
      { t with values := mergeValues columns t.values s.values } where
  keys_eq := by
    have hkeys := h.keys_eq
    cases shares with
    | nil => simp at hkeys
    | cons first rest => exact hkeys
  length_eq := by rw [length_mergeValues, h.length_eq]
  values_eq i c hc hderived := by
    have hlt : i < s.values.length := by
      rw [hlength]
      exact (List.getElem?_eq_some_iff.mp hc).1
    rw [getElem?_mergeValues hc (h.values_eq i c hc hderived) (List.getElem?_eq_getElem hlt)]
    simp only [Column.total, List.foldl_append, List.foldl_cons, List.foldl_nil]
    rw [List.getElem?_eq_getElem hlt, Option.join_some]

/-- Filling in derived values leaves the sum. -/
theorem fill {l : Layout} (h : SumOf l.value shares t) :
    SumOf l.value shares (Derived.fill l t) where
  keys_eq := by rw [Derived.keys_fill, h.keys_eq]
  length_eq := by rw [Derived.length_values_fill, h.length_eq]
  values_eq i c hc hderived := by
    rw [Derived.values_fill_of_not_derived t ?_, h.values_eq i c hc hderived]
    intro d hd
    obtain rfl := Option.some.inj (hc.symm.trans hd)
    exact of_decide_eq_false hderived

/-- The directions of the columns do not matter for a sum. -/
theorem of_unsorted {columns' : List Column} (h : SumOf columns shares t)
    (hcolumns : columns.map Column.unsorted = columns'.map Column.unsorted) :
    SumOf columns' shares t where
  keys_eq := h.keys_eq
  length_eq := by
    have hlength := congrArg List.length hcolumns
    rw [List.length_map, List.length_map] at hlength
    rw [h.length_eq, hlength]
  values_eq i c hc hderived := by
    have hslot : (columns.map Column.unsorted)[i]? = some c.unsorted := by
      rw [hcolumns, List.getElem?_map, hc]
      rfl
    rw [List.getElem?_map] at hslot
    obtain ⟨d, hd, heq⟩ := Option.map_eq_some_iff.mp hslot
    have hfield := congrArg Column.field heq
    have hmerge := congrArg Column.merge heq
    simp only [Column.unsorted] at hfield hmerge
    have hvalue := h.values_eq i d hd (by rw [hfield]; exact hderived)
    simpa only [Column.total, hmerge] using hvalue

end Tally.SumOf

namespace TallyTable.SumsUp

variable {columns : List Column} {shares : List Share} {t : TallyTable}

/-- A table without groups sums up nothing. -/
theorem of_empty (h : ∀ shard ∈ t.shards, shard = []) : t.SumsUp columns [] where
  held_iff key := by simp [find?_of_empty h]
  sumOf key tally htally := by simp [find?_of_empty h] at htally

/-- A share that is added is summed up behind the others. -/
theorem addShare (h : t.SumsUp columns shares) {s : Share}
    (hlength : s.values.length = columns.length) :
    (t.addShare columns s).SumsUp columns (shares ++ [s]) where
  held_iff key := by
    have hold := h.held_iff key
    rw [find?_addShare]
    by_cases hkey : key = s.key
    · simp [hkey]
    · have hne : s.key ≠ key := fun he => hkey he.symm
      rw [if_neg hkey, hold]
      simp [hne]
  sumOf key tally htally := by
    rw [find?_addShare] at htally
    rw [Share.withKey_append]
    by_cases hkey : key = s.key
    · subst hkey
      rw [if_pos rfl] at htally
      obtain rfl := Option.some.inj htally
      rw [if_pos rfl]
      cases hfind : t.find? s.key with
      | none =>
        -- The key is new, so no earlier share has it.
        have hnone : Share.withKey s.key shares = [] := by
          rw [Share.withKey_eq_nil, ← h.held_iff, hfind]
          simp
        rw [hnone]
        exact .single hlength
      | some old => exact (h.sumOf s.key old hfind).merge hlength
    · rw [if_neg hkey] at htally
      rw [if_neg fun he => hkey he.symm]
      exact h.sumOf key tally htally

/-- Shares that are added are summed up behind the others. -/
theorem addShares (h : t.SumsUp columns shares) {more : List Share}
    (hlength : ∀ s ∈ more, s.values.length = columns.length) :
    (more.foldl (TallyTable.addShare columns) t).SumsUp columns (shares ++ more) := by
  induction more generalizing t shares with
  | nil => rwa [List.append_nil]
  | cons s rest ih =>
    have hone := h.addShare (hlength s List.mem_cons_self)
    have hrest := ih hone fun r hr => hlength r (List.mem_cons_of_mem s hr)
    rwa [List.append_assoc] at hrest

/-- Filling in derived values leaves the sums. -/
theorem fill {l : Layout} (h : t.SumsUp l.value shares) :
    (t.mapTallies (Derived.fill l)).SumsUp l.value shares where
  held_iff key := by
    rw [← h.held_iff, find?_mapTallies]
    cases t.find? key <;> simp
  sumOf key tally htally := by
    rw [find?_mapTallies] at htally
    obtain ⟨old, hold, rfl⟩ := Option.map_eq_some_iff.mp htally
    exact (h.sumOf key old hold).fill

/-- The directions of the columns do not matter for the sums. -/
theorem of_unsorted {columns' : List Column} (h : t.SumsUp columns shares)
    (hcolumns : columns.map Column.unsorted = columns'.map Column.unsorted) :
    t.SumsUp columns' shares where
  held_iff := h.held_iff
  sumOf key tally htally := (h.sumOf key tally htally).of_unsorted hcolumns

end TallyTable.SumsUp

namespace Aggregator

/-- An aggregation does what a ledger says. -/
structure Follows (a : Aggregator) (b : Ledger) : Prop where
  /-- They have one layout. -/
  layout_eq : a.layout = b.layout
  /-- They count pairs alike. -/
  pairOnce_eq : a.pairOnce = b.pairOnce
  /-- The layout was configured. -/
  valid : a.layout.Valid
  /-- Each group stands in its shard. -/
  placed : a.table.Placed
  /-- The groups sum up the shares. -/
  sumsUp : a.table.SumsUp a.layout.value b.shares

/-- A new aggregation follows the empty ledger. -/
theorem Follows.new (n : Nat) (spread : String → Nat) : (new n spread).Follows .empty where
  layout_eq := rfl
  pairOnce_eq := rfl
  valid := .empty
  placed := .of_empty TallyTable.shards_new
  sumsUp := .of_empty TallyTable.shards_new

section

variable {a a' : Aggregator} {b : Ledger}

/-- Reading the results leaves the shares that the groups sum up. -/
theorem Follows.read (h : a.Follows b) (hread : a.ReadsTo a') : a'.Follows b := by
  obtain ⟨hlayout, honce, -, -⟩ := hread.keeps
  constructor
  · rw [hlayout, h.layout_eq]
  · rw [honce, h.pairOnce_eq]
  · rw [hlayout]
    exact h.valid
  · rcases hread.table_cases with htable | htable
    · rw [htable]
      exact h.placed
    · rw [htable]
      exact h.placed.mapTallies _
  · rcases hread.table_cases with htable | htable
    · rw [htable, hlayout]
      exact h.sumsUp
    · rw [htable, hlayout]
      exact h.sumsUp.fill

/-- A write adds the shares of its record on both sides. -/
theorem Follows.write (h : a.Follows b) {R : Type} [FlowRecord R] (r : R) :
    (a.write r).1.Follows { b with shares := b.shares ++ b.layout.shares b.pairOnce r } := by
  obtain ⟨hlayout, honce, -, -⟩ := a.write_keeps r
  constructor
  · rw [hlayout, h.layout_eq]
  · rw [honce, h.pairOnce_eq]
  · rw [hlayout]
    exact h.valid
  · rw [table_write]
    exact h.placed.addShares _ _
  · rw [table_write, hlayout, ← h.layout_eq, ← h.pairOnce_eq]
    exact h.sumsUp.addShares fun s hs => Layout.length_values_of_mem_shares hs

/-- A request is refused on both sides, or puts one layout in place and drops the groups
and the shares unless the shape stays. -/
theorem Follows.configure (h : a.Follows b) (r : ColumnRequest) :
    (a.configure r).1.Follows (b.step (.configure r)) := by
  rcases a.configure_cases r with ⟨hnone, hsame⟩ | ⟨l, hsome, hput⟩
  · have hledger : b.step (.configure r) = b := by
      simp only [Ledger.step, ← h.layout_eq, hnone]
    rw [hsame, hledger]
    exact ⟨h.layout_eq, h.pairOnce_eq, h.valid, h.placed, h.sumsUp⟩
  · have hledger : b.step (.configure r) = { b with
        layout := l
        shares := if l.shape = a.layout.shape then b.shares else [] } := by
      simp only [Ledger.step, ← h.layout_eq, hsome]
    have hvalid : l.Valid := h.valid.configure hsome
    rw [hput, hledger]
    by_cases hshape : l.shape = a.layout.shape
    · simp only [if_pos hshape]
      obtain ⟨-, hvalue⟩ := h.valid.unsorted_of_shape hvalid hshape.symm
      exact ⟨rfl, h.pairOnce_eq, hvalid, h.placed, h.sumsUp.of_unsorted hvalue⟩
    · simp only [if_neg hshape]
      exact ⟨rfl, h.pairOnce_eq, hvalid, .of_empty TallyTable.shards_clear,
        .of_empty TallyTable.shards_clear⟩

/-- Every operation keeps the two in step. -/
theorem Follows.step (h : a.Follows b) (op : Operation) : (a.step op).Follows (b.step op) := by
  cases op with
  | configure r => exact h.configure r
  | setPairOnce on => exact ⟨h.layout_eq, rfl, h.valid, h.placed, h.sumsUp⟩
  | setOrdering ordering =>
    exact ⟨h.layout_eq, h.pairOnce_eq, h.valid, h.placed, h.sumsUp⟩
  | write r => exact h.write r
  | firstPosition => exact h
  | nextPosition c => exact h
  | materialize c out => exact h.read (readsTo_materialize a c out)
  | report format limit => exact h.read (readsTo_report a format limit)
  | clear =>
    exact ⟨rfl, rfl, .empty, .of_empty TallyTable.shards_clear,
      .of_empty TallyTable.shards_clear⟩

/-- Every run keeps the two in step. -/
theorem Follows.run (h : a.Follows b) (ops : List Operation) : (a.run ops).Follows (b.run ops) := by
  induction ops generalizing a b with
  | nil => exact h
  | cons op rest ih => exact ih (h.step op)

/-- In every reachable state each group stands in its shard. -/
theorem Reachable.placed (h : a.Reachable) : a.table.Placed := by
  obtain ⟨n, spread, ops, rfl⟩ := h
  exact ((Follows.new n spread).run ops).placed

end

end Aggregator

end FlowTally
