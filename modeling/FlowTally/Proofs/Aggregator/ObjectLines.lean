import FlowTally.Proofs.Aggregator.Objects
import FlowTally.Proofs.Json.FloatText
import FlowTally.Proofs.Json.Written
import FlowTally.Proofs.Value.ReadBack
import FlowTally.Proofs.Value.Unbroken

/-!
# The lines of objects

Results in the form of lines can be read by anything that reads JSON texts line by line. A printed
object holds no line feed, whatever its texts hold, so the text of the results falls into one line
for each object. Each line reads back as an object with the same names, none of them twice, and what
is read under a name is the value that was written. Only floating-point numbers may be read as
others, and as null if they are not finite.
-/

namespace FlowTally

/-- A JSON value is what a value is read back as: a number or null for a floating-point number that
is finite or not, and its own JSON value for any other. -/
def Value.RereadAs : Value → Json → Prop
  | .f64 x, j => if x.isFinite = true then ∃ n, j = .num n else j = .null
  | v, j => j = v.toJson

/-- The JSON value of every value reads back. -/
theorem Value.readsAs_toJson (v : Value) :
    Json.ReadsAs v.toJson v.toJson.readBack ∧ v.RereadAs v.toJson.readBack := by
  have hread : ∀ {j : Json}, Json.ReadsAs v.toJson j → v.RereadAs j →
      Json.ReadsAs v.toJson v.toJson.readBack ∧ v.RereadAs v.toJson.readBack := by
    intro j hreads hreread
    rw [hreads.readBack_eq]
    exact ⟨hreads, hreread⟩
  by_cases htype : v.type = .f64
  · cases v with
    | f64 x =>
      cases hx : x.isFinite with
      | true =>
        obtain ⟨n, hn⟩ := Binary64.exists_readsAs_float hx
        refine hread (j := .num n) ?_ ?_
        · rwa [toJson, if_pos hx]
        · rw [RereadAs, if_pos hx]
          exact ⟨n, rfl⟩
      | false =>
        refine hread (j := .null) ?_ ?_
        · rw [toJson, if_neg (by simp [hx])]
          exact Json.readsAs_null
        · rw [RereadAs, if_neg (by simp [hx])]
    | _ => cases htype
  · refine hread (isScalar_of_type_ne htype).readsAs ?_
    cases v with
    | f64 x => exact absurd rfl htype
    | _ => rfl

/-- The members of the object of fields ascend. They are those of the fields that have a value. -/
theorem FlowRecord.exists_object {R : Type} [FlowRecord R] (r : R) {fields : List FieldId}
    (hcatalog : ∀ f ∈ fields, f.type?.isSome = true) :
    ∃ members, object r fields = .obj members ∧ Assoc.Ascending members ∧
      (∀ m ∈ members, ∃ f ∈ fields, ∃ v, FlowRecord.get r f = .ok v ∧ m = (f.name, v.toJson)) ∧
      ∀ f ∈ fields, ∀ v, FlowRecord.get r f = .ok v → (f.name, v.toJson) ∈ members := by
  obtain ⟨members, hobject, hascending, hgiven, -⟩ :=
    Json.exists_ofMembers (fields.filterMap (FlowRecord.member? r))
  refine ⟨members, hobject, hascending, fun m hm => ?_, fun f hf v hv => ?_⟩
  · obtain ⟨f, hf, hmember⟩ := List.mem_filterMap.mp (hgiven m hm)
    rw [member?] at hmember
    split at hmember
    · next v hv => exact ⟨f, hf, v, hv, (Option.some.inj hmember).symm⟩
    · cases hmember
  · have hlookup := member?_object hcatalog hf hv
    rw [object, hobject, Json.member?] at hlookup
    exact Assoc.mem_of_lookup hlookup

/-- The line of fields reads back as an object. It has a member for each field that has a value, and
no name twice; the value of a field is read back under its name. -/
theorem FlowRecord.exists_members {R : Type} [FlowRecord R] (r : R) {fields : List FieldId}
    (hcatalog : ∀ f ∈ fields, f.type?.isSome = true) :
    ∃ members, Json.read? (object r fields).compact = some (.obj members) ∧
      Json.writtenMembers? (object r fields).compact = some members ∧
      (members.map (·.1)).Nodup ∧
      (∀ name, name ∈ members.map (·.1) ↔
        ∃ f ∈ fields, f.name = name ∧ ∃ v, FlowRecord.get r f = .ok v) ∧
      ∀ f ∈ fields, ∀ v, FlowRecord.get r f = .ok v →
        ∃ j, (f.name, j) ∈ members ∧ v.RereadAs j := by
  obtain ⟨members, hobject, hascending, hgiven, hall⟩ := exists_object r hcatalog
  have hreads : ∀ m ∈ members, Json.ReadsAs m.2 m.2.readBack := by
    intro m hm
    obtain ⟨f, -, v, -, rfl⟩ := hgiven m hm
    exact v.readsAs_toJson.1
  have hnames : (members.map fun m => (m.1, m.2.readBack)).map (·.1) = members.map (·.1) := by
    rw [List.map_map]
    rfl
  rw [hobject]
  refine ⟨_, Json.read?_compact_of_readsAs hascending hreads, Json.writtenMembers?_compact hreads,
    ?_, fun name => ?_, fun f hf v hv => ?_⟩
  · rw [hnames]
    exact hascending.nodup String.lt_irrefl
  · rw [hnames, List.mem_map]
    constructor
    · rintro ⟨m, hm, rfl⟩
      obtain ⟨f, hf, v, hv, rfl⟩ := hgiven m hm
      exact ⟨f, hf, rfl, v, hv⟩
    · rintro ⟨f, hf, rfl, v, hv⟩
      exact ⟨_, hall f hf v hv, rfl⟩
  · exact ⟨_, List.mem_map.mpr ⟨_, hall f hf v hv, rfl⟩, v.readsAs_toJson.2⟩

namespace Aggregator

variable {a : Aggregator}

/-- The results in the form of lines are read line by line. In every state that records lead to and
for every limit, the text of the results has one line for each group that is shown, each ended by a
line feed. The line of a group is the text of an object. Its names are those of the columns in which
the record of the group has a value, and none is written twice. The value of a column is read back
under its name as it was written, but for floating-point numbers, which are read back as numbers if
they are finite and as null if not. -/
theorem RecordReachable.report_lines (h : a.RecordReachable) (limit : Nat) :
    let m := if limit = 0 then a.groupCount else min limit a.groupCount
    ∃ (text : String) (lines : List String), (a.report .json limit).2 = .ok ⟨m, text⟩ ∧
      Text.lines text = lines ++ [""] ∧ lines.length = m ∧
      ∀ (i : Nat) (line : String), lines[i]? = some line →
        ∃ (r : Record) (members : List (String × Json)),
          (∀ out : Record, out.allocated = true → (a.materialize ⟨i⟩ out).2 = (r, .ok ())) ∧
          Json.read? line = some (.obj members) ∧ Json.writtenMembers? line = some members ∧
          (members.map (·.1)).Nodup ∧
          (∀ name, name ∈ members.map (·.1) ↔
            ∃ f ∈ a.layout.fields, f.name = name ∧ ∃ v, r.get f = .ok v) ∧
          ∀ f ∈ a.layout.fields, ∀ v, r.get f = .ok v →
            ∃ j, (f.name, j) ∈ members ∧ v.RereadAs j := by
  intro m
  have hm : m = if limit = 0 then a.groupCount else min limit a.groupCount := rfl
  have hsound := h.sound
  have hcoherent := h.reachable.coherent
  have hreport := hsound.report_eq hcoherent hm
  obtain ⟨-, hlength⟩ := hsound.walk_take hcoherent hm
  have hfeed : ∀ part ∈ (a.objects.take m).map Json.print, '\n' ∉ part := by
    intro part hpart
    obtain ⟨j, -, rfl⟩ := List.mem_map.mp hpart
    exact j.unbroken_print.feed_notMem
  have hlines := Text.lines_feed hfeed
  rw [List.flatMap_map, List.map_map] at hlines
  refine ⟨_, _, hreport, hlines, ?_, fun i line hline => ?_⟩
  · rw [List.length_map, objects, ← List.map_take, List.length_map, hlength]
  · rw [objects, ← List.map_take, List.map_map, List.getElem?_map] at hline
    obtain ⟨r, hr, rfl⟩ := Option.map_eq_some_iff.mp hline
    have hrow : a.rows[i]? = some r := by
      rw [List.getElem?_take] at hr
      split at hr
      · exact hr
      · cases hr
    have hcatalog : ∀ f ∈ a.layout.fields, f.type?.isSome = true :=
      fun f hf => hsound.valid.type_isSome hf
    obtain ⟨members, hread⟩ := FlowRecord.exists_members r hcatalog
    refine ⟨r, members, fun out hout => ?_, hread⟩
    rw [(materialize_row hsound hcoherent (.inl rfl) hrow hout).1]

/-- A run that groups one flow by its user and its rate. -/
def ratedUserRun (name : String) (rate : Binary64) : List Operation :=
  [.configure ⟨.userName, .auto, .none, 0, 0⟩, .configure ⟨.bitRate, .key, .none, 0, 0⟩,
   .write (fillRecord Record.empty [(.userName, .string name), (.bitRate, .f64 rate)]).1]

/-- The name of a user with quotation marks and a line feed stays on its line and is read back, and
an infinite rate is read back as null. -/
theorem report_lines_ratedUserRun :
    let a := (new 1 TallyTable.polynomialSpread).run (ratedUserRun "\"a\"\nb" ⟨0x7ff0000000000000⟩)
    ∃ text line members, (a.report .json 0).2 = .ok ⟨1, text⟩ ∧ Text.lines text = [line, ""] ∧
      Json.read? line = some (.obj members) ∧ ("username", .str "\"a\"\nb") ∈ members ∧
      ("bps", .null) ∈ members := by
  intro a
  have hreachable : a.RecordReachable := by
    refine ⟨1, TallyTable.polynomialSpread, ratedUserRun _ _, ?_, rfl⟩
    simp [ratedUserRun, Operation.OnRecords]
  have hsound := hreachable.sound
  have hcount : a.groupCount = 1 := by decide
  obtain ⟨text, lines, hreport, hlines, hlength, hread⟩ := hreachable.report_lines 0
  rw [if_pos rfl, hcount] at hreport hlength
  obtain ⟨line, rfl⟩ := List.length_eq_one_iff.mp hlength
  obtain ⟨r, members, hmaterialize, hobject, -, -, -, hvalues⟩ := hread 0 line rfl
  let user : Value := .string "\"a\"\nb"
  let rate : Value := .f64 ⟨0x7ff0000000000000⟩
  have hgroups : [("s:\"a\"\nb;f:inf;", ⟨[user, rate], [none, some (.u64 0), none, none]⟩)] =
      a.table.ordered a.layout a.ordering :=
    hsound.placed.eq_ordered (by decide) (by decide)
  have hrow : ∃ row, a.rows[0]? = some row ∧ row.get .userName = .ok user ∧
      row.get .bitRate = .ok rate := by
    rw [rows, ← hgroups]
    exact ⟨_, rfl, by decide, by decide⟩
  obtain ⟨row, hrow, huser, hrate⟩ := hrow
  have hempty : Record.empty.allocated = true := rfl
  have hmade := (materialize_row hsound hreachable.reachable.coherent (.inl rfl) hrow hempty).1
  obtain rfl : r = row :=
    (Prod.mk.inj ((hmaterialize Record.empty hempty).symm.trans (congrArg Prod.snd hmade))).1
  obtain ⟨_, huserMember, rfl⟩ : ∃ j, ("username", j) ∈ members ∧ j = user.toJson :=
    hvalues .userName (by decide) user huser
  obtain ⟨_, hrateMember, rfl⟩ : ∃ j, ("bps", j) ∈ members ∧ j = .null :=
    hvalues .bitRate (by decide) rate hrate
  exact ⟨text, line, members, hreport, hlines, hobject, huserMember, hrateMember⟩

/-- The line feed and the quotation marks of a name are escaped. -/
example : (Json.obj [("bps", .null), ("username", (Value.string "\"a\"\nb").toJson)]).compact =
    "\x7b\"bps\":null,\"username\":\"\\\"a\\\"\\nb\"\x7d" := by decide +kernel

end Aggregator

end FlowTally
