import FlowTally.Assoc
import FlowTally.Layout.Basic

/-!
# The table of groups

A group is a tally: its key values and the values merged so far. The table finds a
tally by the text of its key. It is split into shards; which shard holds a key is
up to a spreading function, and nothing but the number of shards shows it.
-/

namespace FlowTally

/-- One group. -/
structure Tally where
  /-- The key values, one per key column. -/
  keys : List Value
  /-- The merged values, one per value column; absent until a record brings one. -/
  values : List (Option Value)
deriving DecidableEq, Repr

/-- What adding to a table did. -/
inductive Added where
  /-- A new group was made. -/
  | created
  /-- The values were merged into a group. -/
  | merged
deriving DecidableEq, Repr

/-- Merges new values into those of a group, column by column. -/
def mergeValues : List Column → List (Option Value) → List (Option Value) → List (Option Value)
  | c :: columns, old :: olds, new :: news =>
    c.merge.apply old new :: mergeValues columns olds news
  | _, olds, _ => olds

/-- The groups of one shard, by the texts of their keys. -/
abbrev Shard := List (String × Tally)

/-- The groups, split into shards. -/
structure TallyTable where
  /-- Spreads keys over the shards. -/
  spread : String → Nat
  /-- The shards. -/
  shards : List Shard
  /-- There is at least one shard. -/
  shards_ne_nil : shards ≠ []

namespace TallyTable

/-- Spreads keys by a polynomial in their characters. -/
def polynomialSpread (key : String) : Nat :=
  (key.toList.foldl (fun (h : UInt64) c => h * 31 + UInt64.ofNat c.toNat) 7).toNat

/-- The table without groups; it has at least one shard. -/
def new (shards : Nat) (spread : String → Nat) : TallyTable where
  spread := spread
  shards := List.replicate (max shards 1) []
  shards_ne_nil := by simp

/-- The number of shards. -/
def shardCount (t : TallyTable) : Nat := t.shards.length

/-- The shard that holds a key. -/
def shardIndex (t : TallyTable) (key : String) : Nat := t.spread key % t.shards.length

/-- The group of a key. -/
def find? (t : TallyTable) (key : String) : Option Tally :=
  (t.shards[t.shardIndex key]?).bind (Assoc.lookup key)

/-- The table after a change of the shard of a key. -/
def modifyShard (t : TallyTable) (key : String) (f : Shard → Shard) : TallyTable where
  spread := t.spread
  shards := t.shards.modify (t.shardIndex key) f
  shards_ne_nil := by simpa [← List.length_eq_zero_iff] using t.shards_ne_nil

/-- Merges values into the group of a key, which is made if it is not there. -/
def add (t : TallyTable) (columns : List Column) (key : String) (keys : List Value)
    (values : List (Option Value)) : TallyTable × Added :=
  match t.find? key with
  | some tally =>
    let merged := { tally with values := mergeValues columns tally.values values }
    (t.modifyShard key (Assoc.insert key merged), .merged)
  | none => (t.modifyShard key (Assoc.insert key ⟨keys, values⟩), .created)

/-- All groups with the texts of their keys, shard by shard. -/
def entries (t : TallyTable) : List (String × Tally) := t.shards.flatten

/-- The number of groups. -/
def size (t : TallyTable) : Nat := t.entries.length

/-- Whether there is no group. -/
def isEmpty (t : TallyTable) : Bool := t.shards.all List.isEmpty

/-- Changes every group. -/
def mapTallies (t : TallyTable) (f : Tally → Tally) : TallyTable where
  spread := t.spread
  shards := t.shards.map fun shard => shard.map fun entry => (entry.1, f entry.2)
  shards_ne_nil := by simpa using t.shards_ne_nil

/-- The table without its groups. -/
def clear (t : TallyTable) : TallyTable where
  spread := t.spread
  shards := t.shards.map fun _ => []
  shards_ne_nil := by simpa using t.shards_ne_nil

end TallyTable

end FlowTally
