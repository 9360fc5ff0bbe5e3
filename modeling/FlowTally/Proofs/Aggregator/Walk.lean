import FlowTally.Proofs.Aggregator.Rows

/-!
# The walk through the results

The results are walked through by a loop that fills one record again and again, does
something with it and asks for the next position, until there is none or the limit is
reached. The number of groups decides when the loop ends and the kept order decides what it
shows; they agree, and no group is refused, so the loop shows the groups in order, each once.
-/

namespace FlowTally

/-- Why a walk fails. -/
inductive WalkError (ε : Type) where
  /-- The group at a position does not fit a record. -/
  | group (position : Nat) (cause : AggregateError)
  /-- What was done with a record failed. -/
  | action (cause : ε)
  /-- There is no position, though the walk is not at its end. -/
  | position (cause : AggregateError)

/-- A walk through the results, between two rounds of its loop. It carries what was made of the
records so far and the answers to its questions for the next position. -/
inductive Walk (σ ε : Type) where
  /-- It goes on at a position, with the record that is filled next and the number of records
  so far. -/
  | going (a : Aggregator) (c : Cursor) (out : Record) (made : σ) (taken : Nat)
    (asked : List (Except AggregateError Cursor))
  /-- It is over, with the number of records. -/
  | over (a : Aggregator) (made : σ) (result : Except (WalkError ε) Nat)
    (asked : List (Except AggregateError Cursor))

namespace Walk

variable {σ ε : Type}

/-- The walk before its first round. -/
def start (a : Aggregator) (made : σ) : Walk σ ε :=
  match a.firstPosition with
  | .error .empty => .over a made (.ok 0) []
  | .error e => .over a made (.error (.position e)) []
  | .ok c => .going a c Record.empty made 0 []

/-- One round: the record is filled and something is done with it, and the walk ends or moves
on. -/
def round (act : σ → Record → Except ε σ) (limit : Nat) : Walk σ ε → Walk σ ε
  | .over a made result asked => .over a made result asked
  | .going a c out made taken asked =>
    match a.materialize c out with
    | (a, _, .error e) => .over a made (.error (.group c.position e)) asked
    | (a, out, .ok ()) =>
      match act made out with
      | .error e => .over a made (.error (.action e)) asked
      | .ok made =>
        if limit ≠ 0 ∧ limit ≤ taken + 1 then .over a made (.ok (taken + 1)) asked
        else
          match a.nextPosition c with
          | .ok next => .going a next out made (taken + 1) (asked ++ [.ok next])
          | .error e =>
            .over a made (if e.endsWalk then .ok (taken + 1) else .error (.position e))
              (asked ++ [.error e])

end Walk

namespace Aggregator

/-- The records of all groups, in the order of the results. -/
def rows (a : Aggregator) : List Record :=
  (a.table.ordered a.layout a.ordering).map fun e => e.2.record a.layout

section

variable {a a' : Aggregator}

/-- There is a record for each group. -/
theorem length_rows : a.rows.length = a.groupCount := by
  rw [rows, List.length_map, TallyTable.length_ordered, groupCount]

/-- Reading leaves the order of the results. -/
theorem ReadsTo.sortedKeys_eq (h : a.ReadsTo a') : a'.sortedKeys = a.sortedKeys := by
  rcases h with rfl | rfl
  · rfl
  · exact a.sortedKeys_sortedKeys

/-- Reading leaves the groups with their derived values, in their order. -/
theorem ReadsTo.ordered_eq (hl : a.layout.Valid) (h : a.ReadsTo a') :
    a'.table.ordered a'.layout a'.ordering = a.table.ordered a.layout a.ordering := by
  obtain ⟨hlayout, -, hordering, -⟩ := h.keeps
  rw [hlayout, hordering]
  rcases h.table_cases with htable | htable
  · rw [htable]
  · rw [htable, TallyTable.ordered, TallyTable.mapTallies_mapTallies]
    simp only [Derived.fill_fill hl]
    rfl

/-- Reading leaves the number of groups. -/
theorem ReadsTo.groupCount_eq (h : a.ReadsTo a') : a'.groupCount = a.groupCount := by
  rcases h.table_cases with htable | htable
  · rw [groupCount, htable, groupCount]
  · rw [groupCount, htable, TallyTable.size_mapTallies, groupCount]

/-- There is a next position unless the last group was reached. -/
theorem nextPosition_eq_of_pos (h : 0 < a.groupCount) (i : Nat) :
    a.nextPosition ⟨i⟩ = if i + 1 < a.groupCount then .ok ⟨i + 1⟩ else .error .pastEnd := by
  unfold nextPosition
  rw [← groupCount, if_neg (by omega)]
  by_cases hi : i + 1 < a.groupCount
  · rw [if_pos hi, if_neg (by dsimp only; omega)]
  · rw [if_neg hi, if_pos (by dsimp only; omega)]

/-- A walk has a first position unless there is no group. -/
theorem firstPosition_eq (a : Aggregator) :
    a.firstPosition = if a.groupCount = 0 then .error .empty else .ok ⟨0⟩ := by
  unfold firstPosition
  rw [TallyTable.isEmpty_eq, groupCount]
  by_cases hsize : a.table.size = 0 <;> simp [hsize]

variable (h : a.Sound) (hcoherent : a.Coherent) (hread : a.ReadsTo a')

include h hcoherent hread

/-- Wherever the walk stands, a record is filled with the row of its position. -/
theorem materialize_row {i : Nat} {row : Record} (hi : a.rows[i]? = some row) {out : Record}
    (hout : out.allocated = true) :
    a'.materialize ⟨i⟩ out = (a.sortedKeys.1, row, .ok ()) ∧ row.allocated = true := by
  have hordered := hread.ordered_eq h.valid
  rw [rows, List.getElem?_map] at hi
  obtain ⟨⟨key, tally⟩, hgroup, rfl⟩ := Option.map_eq_some_iff.mp hi
  obtain ⟨-, hallocated, -⟩ := record_spec h.valid (h.fits_of_ordered hgroup)
  refine ⟨?_, hallocated⟩
  rw [← hordered] at hgroup
  rw [(h.read hread).materialize_eq (hcoherent.read hread) hgroup hout, hread.sortedKeys_eq,
    hread.keeps.1]

/-- A round takes one row, and it is the last one or the walk moves on by one position. -/
theorem round_eq {σ ε : Type} (next : σ → Record → σ) {limit i : Nat}
    (hlimit : limit = 0 ∨ i < limit) {row : Record} (hi : a.rows[i]? = some row) {out : Record}
    (hout : out.allocated = true) (made : σ) (asked : List (Except AggregateError Cursor)) :
    (Walk.going a' ⟨i⟩ out made i asked).round (fun s r => .ok (next s r)) limit =
      (if limit = i + 1 then
        .over a.sortedKeys.1 (next made row) (.ok (i + 1)) asked
      else if i + 1 < a.groupCount then
        .going a.sortedKeys.1 ⟨i + 1⟩ row (next made row) (i + 1) (asked ++ [.ok ⟨i + 1⟩])
      else
        .over a.sortedKeys.1 (next made row) (.ok (i + 1)) (asked ++ [.error .pastEnd]) :
      Walk σ ε) := by
  have hlt : i < a.groupCount := length_rows ▸ (List.getElem?_eq_some_iff.mp hi).1
  have hcount : a.sortedKeys.1.groupCount = a.groupCount := ReadsTo.groupCount_eq (.inr rfl)
  have hnext := nextPosition_eq_of_pos (a := a.sortedKeys.1) (by omega) i
  rw [hcount] at hnext
  simp only [Walk.round, (materialize_row h hcoherent hread hi hout).1, hnext]
  by_cases hlast : limit = i + 1
  · rw [if_pos hlast, if_pos (by omega)]
  · rw [if_neg hlast, if_neg (by omega)]
    by_cases hmore : i + 1 < a.groupCount
    · simp only [if_pos hmore]
    · simp only [if_neg hmore]
      rfl

omit h hcoherent hread in
/-- The rows from a position on are its own and those behind it. -/
theorem drop_take_rows {i m : Nat} (hi : i < m) {row : Record} (hrow : a.rows[i]? = some row) :
    (a.rows.take m).drop i = row :: (a.rows.take m).drop (i + 1) := by
  obtain ⟨hlt, rfl⟩ := List.getElem?_eq_some_iff.mp hrow
  rw [List.drop_eq_getElem_cons (by rw [List.length_take]; omega), List.getElem_take]

/-- The rounds from a position on take the rows from there up to the last one that is to be
taken, and ask for a position behind each. -/
theorem rounds_eq {σ ε : Type} (next : σ → Record → σ) {limit m : Nat}
    (hm : m = if limit = 0 then a.groupCount else min limit a.groupCount) {i left : Nat}
    (hi : i + left + 1 = m) {out : Record} (hout : out.allocated = true) (made : σ)
    (asked : List (Except AggregateError Cursor)) :
    (Walk.round (fun s r => .ok (next s r)) limit)^[left + 1]
        (Walk.going a' ⟨i⟩ out made i asked) =
      (Walk.over a.sortedKeys.1 (((a.rows.take m).drop i).foldl next made) (.ok m)
        (asked ++ (List.range' (i + 1) left).map (fun j => .ok ⟨j⟩) ++
          if limit = m then [] else [.error .pastEnd]) : Walk σ ε) := by
  have hmin : m ≤ a.groupCount ∧ (limit = 0 ∨ m ≤ limit) ∧ (m = limit ∨ m = a.groupCount) := by
    split at hm <;> omega
  induction left generalizing a' i out made asked with
  | zero =>
    have hlimit : limit = 0 ∨ i < limit := by omega
    obtain ⟨row, hrow⟩ : ∃ row, a.rows[i]? = some row :=
      ⟨_, List.getElem?_eq_getElem (by rw [length_rows]; omega)⟩
    have hrest : (a.rows.take m).drop (i + 1) = [] :=
      List.drop_eq_nil_of_le (by rw [List.length_take]; omega)
    rw [Function.iterate_one, round_eq h hcoherent hread next hlimit hrow hout,
      drop_take_rows (by omega) hrow, hrest]
    obtain rfl : i + 1 = m := hi
    by_cases hlast : limit = i + 1
    · simp [hlast]
    · simp [hlast, show ¬i + 1 < a.groupCount by omega]
  | succ left ih =>
    have hlimit : limit = 0 ∨ i < limit := by omega
    obtain ⟨row, hrow⟩ : ∃ row, a.rows[i]? = some row :=
      ⟨_, List.getElem?_eq_getElem (by rw [length_rows]; omega)⟩
    have hallocated := (materialize_row h hcoherent hread hrow hout).2
    rw [Function.iterate_succ_apply, round_eq h hcoherent hread next hlimit hrow hout,
      if_neg (by omega), if_pos (by omega), ih (.inr rfl) (by omega) hallocated,
      drop_take_rows (by omega) hrow]
    simp [List.range'_succ]

/-- The records of a walk are the rows from its position on. -/
theorem walkFrom_eq {i : Nat} (hi : i < a.groupCount) (room : Nat) :
    a'.walkFrom ⟨i⟩ room =
      (if room = 0 then a' else a.sortedKeys.1, .ok ((a.rows.drop i).take room)) := by
  induction room generalizing a' i with
  | zero => rfl
  | succ room ih =>
    have hlt : i < a.rows.length := by rw [length_rows]; exact hi
    have hrow := List.getElem?_eq_getElem hlt
    have hcount : a.sortedKeys.1.groupCount = a.groupCount := ReadsTo.groupCount_eq (.inr rfl)
    have hnext := nextPosition_eq_of_pos (a := a.sortedKeys.1) (by omega) i
    rw [hcount] at hnext
    have hempty : Record.empty.allocated = true := rfl
    simp only [walkFrom, (materialize_row h hcoherent hread hrow hempty).1, hnext]
    rw [List.drop_eq_getElem_cons hlt, List.take_succ_cons]
    by_cases hmore : i + 1 < a.groupCount
    · simp only [if_pos hmore, ih (.inr rfl) hmore]
      simp
    · have hrest : a.rows.drop (i + 1) = [] :=
        List.drop_eq_nil_of_le (by rw [length_rows]; omega)
      simp [hmore, hrest]

omit hread in
/-- A walk with a group takes the first rows and asks for a position behind each. -/
theorem rounds_start {σ ε : Type} (next : σ → Record → σ) {limit m : Nat}
    (hm : m = if limit = 0 then a.groupCount else min limit a.groupCount)
    (hcount : 0 < a.groupCount) (made : σ) :
    (Walk.round (fun s r => .ok (next s r)) limit)^[m] (Walk.start a made) =
      (Walk.over a.sortedKeys.1 ((a.rows.take m).foldl next made) (.ok m)
        ((List.range' 1 (m - 1)).map (fun j => .ok ⟨j⟩) ++
          if limit = m then [] else [.error .pastEnd]) : Walk σ ε) := by
  have hfirst := firstPosition_eq a
  rw [if_neg (by omega)] at hfirst
  have hpos : 0 < m := by split at hm <;> omega
  obtain ⟨left, rfl⟩ : ∃ left, m = left + 1 := ⟨m - 1, by omega⟩
  have hi : 0 + left + 1 = left + 1 := by omega
  have hempty : Record.empty.allocated = true := rfl
  have hrounds := rounds_eq h hcoherent (.inl rfl) (ε := ε) next hm hi hempty made []
  rw [List.nil_append, List.drop_zero, Nat.zero_add] at hrounds
  rw [Walk.start, hfirst]
  exact hrounds

omit hread in
/-- The records of the results are the first rows. -/
theorem walk_eq {limit m : Nat}
    (hm : m = if limit = 0 then a.groupCount else min limit a.groupCount)
    (hcount : 0 < a.groupCount) : a.walk limit = (a.sortedKeys.1, .ok (a.rows.take m)) := by
  have hfirst := firstPosition_eq a
  rw [if_neg (by omega)] at hfirst
  have hroom : ∀ room : Nat, room ≠ 0 → m = min room a.groupCount →
      a.walkFrom ⟨0⟩ room = (a.sortedKeys.1, .ok (a.rows.take m)) := by
    intro room hne hmin
    rw [walkFrom_eq h hcoherent (.inl rfl) hcount, if_neg hne, List.drop_zero, hmin, ← length_rows,
      ← List.take_eq_take_min]
  unfold walk
  rw [hfirst]
  by_cases hlimit : limit = 0
  · rw [if_pos hlimit] at hm ⊢
    exact hroom _ (by omega) (by omega)
  · rw [if_neg hlimit] at hm ⊢
    exact hroom _ hlimit hm

end

/-- The walk through the results is complete, in order and never fails. In every state that
records of this library lead to, for every limit and whatever is done with the records, as
long as that does not fail: after as many rounds as there are groups to show the walk is over,
gives their number and has taken the first rows of the results, in order; these are the
records that the results are written from. The rows are those of all groups of the table, each
once, in the order of the kept keys. Without a limit the walk asks for a next position once
for each group, and only the last answer is that there is none. -/
theorem RecordReachable.walk_complete {a : Aggregator} (h : a.RecordReachable) (limit : Nat)
    {σ ε : Type} (next : σ → Record → σ) (made : σ) :
    let groups := a.table.ordered a.layout a.ordering
    let m := if limit = 0 then a.groupCount else min limit a.groupCount
    let outs := (groups.take m).map fun e => e.2.record a.layout
    (∃ b asked, (Walk.round (fun s r => .ok (next s r)) limit)^[m] (Walk.start a made) =
        (Walk.over b (outs.foldl next made) (.ok m) asked : Walk σ ε) ∧
      a.walk limit = (b, .ok outs) ∧
      (limit = 0 → 0 < a.groupCount →
        asked = (List.range' 1 (a.groupCount - 1)).map (fun j => .ok ⟨j⟩) ++
          [.error .pastEnd])) ∧
    outs.length = m ∧ groups.map (·.1) = a.sortedKeys.2 ∧ (groups.map (·.1)).Nodup ∧
    groups.Perm (a.table.mapTallies (Derived.fill a.layout)).entries := by
  intro groups m outs
  have hsound := h.sound
  have hcoherent := h.reachable.coherent
  have houts : outs = a.rows.take m := List.map_take
  have hm : m ≤ a.groupCount := by
    simp only [m]
    split <;> omega
  refine ⟨?_, ?_, ?_, hsound.placed.nodup_ordered, TallyTable.ordered_perm⟩
  · rcases Nat.eq_zero_or_pos a.groupCount with hcount | hcount
    · -- Without a group there is no first position.
      have hfirst := firstPosition_eq a
      rw [if_pos hcount] at hfirst
      have hzero : m = 0 := by omega
      rw [houts, hzero]
      refine ⟨a, [], ?_, ?_, fun _ hpos => absurd hcount (by omega)⟩
      · simp only [Walk.start, hfirst]
        rfl
      · simp only [walk, hfirst]
        rfl
    · rw [houts]
      refine ⟨a.sortedKeys.1, _, rounds_start hsound hcoherent next rfl hcount made,
        walk_eq hsound hcoherent rfl hcount, fun hlimit _ => ?_⟩
      rw [if_pos hlimit, if_neg (by omega)]
  · rw [houts, List.length_take, length_rows, Nat.min_eq_left hm]
  · exact (Prod.mk.inj hcoherent.sortedKeys_eq).2.symm

/-- A run with a group for each of three ports, the one with most bytes first. -/
def portsRun : List Operation :=
  [.configure ⟨.port, .key, .none, 0, 0⟩, .configure ⟨.bytes, .auto, .desc, 0, 0⟩,
   .write (fillRecord Record.empty [(.srcPort, .u16 80), (.dstPort, .u16 53), (.bytes, .u64 100)]).1,
   .write (fillRecord Record.empty [(.srcPort, .u16 80), (.dstPort, .u16 22), (.bytes, .u64 7)]).1]

/-- Two of the three ports are taken under a limit of two, and without a limit there are three
questions for the next position. -/
theorem walk_portsRun :
    let a := (new 3 TallyTable.polynomialSpread).run portsRun
    (∃ b asked, (Walk.round (fun s r => .ok (s ++ [r.get .port])) 2)^[2] (Walk.start a []) =
      (Walk.over b [.ok (.u16 80), .ok (.u16 53)] (.ok 2) asked :
        Walk (List (Except RecordError Value)) String)) ∧
    ∃ b asked, (Walk.round (fun n _ => .ok (n + 1)) 0)^[3] (Walk.start a 0) =
      (Walk.over b 3 (.ok 3) asked : Walk Nat String) ∧
      asked = [.ok ⟨1⟩, .ok ⟨2⟩, .error .pastEnd] := by
  intro a
  have hreachable : a.RecordReachable := by
    refine ⟨3, TallyTable.polynomialSpread, portsRun, ?_, rfl⟩
    simp [portsRun, Operation.OnRecords]
  have hcount : a.groupCount = 3 := by decide +kernel
  let groups : List (String × Tally) :=
    [("w:80;", ⟨[.u16 80], [some (.u64 107)]⟩), ("w:53;", ⟨[.u16 53], [some (.u64 100)]⟩),
     ("w:22;", ⟨[.u16 22], [some (.u64 7)]⟩)]
  have hgroups : groups = a.table.ordered a.layout a.ordering :=
    hreachable.sound.placed.eq_ordered (by decide +kernel) (by decide +kernel)
  constructor
  · obtain ⟨⟨b, asked, hrounds, -⟩, -⟩ := hreachable.walk_complete 2 (ε := String)
      (fun s r => s ++ [r.get .port]) []
    rw [hcount, ← hgroups] at hrounds
    exact ⟨b, asked, hrounds⟩
  · obtain ⟨⟨b, asked, hrounds, -, hasked⟩, -⟩ := hreachable.walk_complete 0 (ε := String)
      (fun n _ => n + 1) 0
    rw [hcount, ← hgroups] at hrounds
    refine ⟨b, asked, hrounds, ?_⟩
    rw [hasked rfl (by omega), hcount]
    rfl

end Aggregator

end FlowTally
