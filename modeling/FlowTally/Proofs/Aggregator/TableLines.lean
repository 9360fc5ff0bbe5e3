import FlowTally.Proofs.Aggregator.Objects
import FlowTally.Proofs.Value.Unbroken

/-!
# The lines of a table

The columns of a table are as wide as the bytes of their widest cells, and a cell is filled up to
as many characters. A text has no fewer bytes than characters, so each cell fits its column and is
filled up to the whole width, and a column stands at the same place in every line. Nothing cuts a
cell at its line feeds: a text that holds one breaks its line. No cell of another type does.
-/

namespace FlowTally

namespace Report

/-- Where a column starts: behind the columns in front of it and two blanks for each of them. -/
def columnStart (widths : List Nat) (j : Nat) : Nat := ((widths.take j).map (· + 2)).sum

/-- A line as long as its columns, with two blanks between each two of them. -/
def lineWidth (widths : List Nat) : Nat := columnStart widths widths.length - 2

/-- The characters of a line of a table, without the line feed. -/
def lineText (widths : List Nat) (row : List (List Char)) : List Char :=
  joinCells (List.zipWith alignRight widths row)

/-- A column is behind the first one by as much as behind the others, and the first one. -/
theorem columnStart_succ (w : Nat) (widths : List Nat) (j : Nat) :
    columnStart (w :: widths) (j + 1) = w + 2 + columnStart widths j := by
  rw [columnStart, List.take_succ_cons, List.map_cons, List.sum_cons, columnStart]

section

variable {cells : List (List Char)}

/-- Cells behind another one are joined to it by two blanks. -/
theorem joinCells_cons (c : List Char) (hne : cells ≠ []) :
    joinCells (c :: cells) = c ++ ' ' :: ' ' :: joinCells cells := by
  obtain ⟨d, rest, rfl⟩ := List.exists_cons_of_ne_nil hne
  rfl

/-- From the start of a column on stand its cell and those behind it. -/
theorem drop_columnStart (cells : List (List Char)) (j : Nat) :
    (joinCells cells).drop (columnStart (cells.map List.length) j) = joinCells (cells.drop j) := by
  induction cells generalizing j with
  | nil => simp [joinCells]
  | cons c rest ih =>
    cases j with
    | zero => rfl
    | succ j =>
      rw [List.map_cons, columnStart_succ, List.drop_succ_cons, ← ih j]
      by_cases hne : rest = []
      · subst hne
        rw [List.drop_eq_nil_of_le (by simp only [joinCells]; omega)]
        simp [joinCells]
      · rw [joinCells_cons c hne, ← List.drop_drop, ← List.drop_drop, List.drop_left]
        rfl

/-- A line is as long as its columns. -/
theorem length_joinCells (cells : List (List Char)) :
    (joinCells cells).length = lineWidth (cells.map List.length) := by
  induction cells with
  | nil => rfl
  | cons c rest ih =>
    rw [lineWidth, List.map_cons, List.length_cons, columnStart_succ]
    by_cases hne : rest = []
    · subst hne
      simp [joinCells, columnStart]
    · obtain ⟨d, more, rfl⟩ := List.exists_cons_of_ne_nil hne
      rw [lineWidth, List.map_cons, List.length_cons, columnStart_succ] at ih
      rw [joinCells_cons c hne, List.length_append, List.length_cons, List.length_cons, ih,
        List.map_cons, List.length_cons, columnStart_succ]
      omega

/-- Joined cells hold the characters of the cells, and blanks. -/
theorem count_joinCells {c : Char} (hc : c ≠ ' ') (cells : List (List Char)) :
    (joinCells cells).count c = (cells.map (List.count c)).sum := by
  have hblank : (' ' == c) = false := beq_eq_false_iff_ne.mpr hc.symm
  induction cells with
  | nil => rfl
  | cons d rest ih =>
    by_cases hne : rest = []
    · subst hne
      simp [joinCells]
    · simp [joinCells_cons d hne, List.count_cons, hblank, ih]

end

/-- A cell that fits its column is filled up to its width. -/
theorem length_alignRight {width : Nat} {cell : List Char} (h : cell.length ≤ width) :
    (alignRight width cell).length = width := by
  rw [alignRight, List.length_append, List.length_replicate]
  omega

/-- A cell is filled up with blanks. -/
theorem count_alignRight {c : Char} (hc : c ≠ ' ') (width : Nat) (cell : List Char) :
    (alignRight width cell).count c = cell.count c := by
  rw [alignRight, List.count_append, List.count_replicate, if_neg (by simpa using hc.symm),
    Nat.zero_add]

/-- Each cell of a row fits its column. -/
def Fits (widths : List Nat) (row : List (List Char)) : Prop :=
  List.Forall₂ (fun w cell => Text.byteSize cell ≤ w) widths row

section

variable {widths wider : List Nat} {row : List (List Char)}

/-- Cells that fit stay so if the columns get wider. -/
theorem Fits.mono (h : Fits widths row) (hwider : List.Forall₂ (· ≤ ·) widths wider) :
    Fits wider row := by
  induction h generalizing wider with
  | nil =>
    cases hwider
    exact .nil
  | cons hcell _ ih =>
    cases hwider with
    | cons hw hrest => exact .cons (hcell.trans hw) (ih hrest)

/-- A row makes the columns wider, so that it fits. -/
theorem widen_spec (h : row.length = widths.length) :
    List.Forall₂ (· ≤ ·) widths (widen widths row) ∧ Fits (widen widths row) row := by
  induction widths generalizing row with
  | nil =>
    obtain rfl := List.length_eq_zero_iff.mp h
    exact ⟨.nil, .nil⟩
  | cons w rest ih =>
    obtain ⟨cell, cells, rfl⟩ := List.exists_cons_of_length_eq_add_one h
    obtain ⟨hwider, hfits⟩ := ih (Nat.succ_inj.mp h)
    exact ⟨.cons (le_max_left _ _) hwider, .cons (le_max_right _ _) hfits⟩

/-- Rows make the columns wider, so that each of them fits beside what fitted before. -/
theorem foldl_widen_spec {rows : List (List (List Char))}
    (h : ∀ row ∈ rows, row.length = widths.length) :
    (∀ row, Fits widths row → Fits (rows.foldl widen widths) row) ∧
      ∀ row ∈ rows, Fits (rows.foldl widen widths) row := by
  induction rows generalizing widths with
  | nil => exact ⟨fun _ hfits => hfits, fun _ hrow => absurd hrow List.not_mem_nil⟩
  | cons row rest ih =>
    obtain ⟨hrow, hrest⟩ := List.forall_mem_cons.mp h
    obtain ⟨hwider, hfits⟩ := widen_spec hrow
    obtain ⟨hbefore, hothers⟩ := ih fun r hr => (hrest r hr).trans hwider.length_eq
    exact ⟨fun r hr => hbefore r (hr.mono hwider),
      List.forall_mem_cons.mpr ⟨hbefore row hfits, hothers⟩⟩

/-- The cells of a row that fits are as wide as their columns when they are filled up. -/
theorem Fits.map_length (h : Fits widths row) :
    (List.zipWith alignRight widths row).map List.length = widths := by
  induction h with
  | nil => rfl
  | cons hcell _ ih =>
    rw [List.zipWith_cons_cons, List.map_cons, ih,
      length_alignRight ((Text.length_le_byteSize _).trans hcell)]

/-- The line of a row that fits is as long as the columns. -/
theorem Fits.length_lineText (h : Fits widths row) :
    (lineText widths row).length = lineWidth widths := by
  rw [lineText, length_joinCells, h.map_length]

/-- The cell of a column ends where the column ends. Blanks fill it up, and two of them stand
between it and the next column. -/
theorem Fits.column_lineText (h : Fits widths row) {j w : Nat} {cell : List Char}
    (hw : widths[j]? = some w) (hcell : row[j]? = some cell) :
    ((lineText widths row).drop (columnStart widths j)).take w =
        List.replicate (w - cell.length) ' ' ++ cell ∧
      (j + 1 < widths.length →
        ((lineText widths row).drop (columnStart widths j + w)).take 2 = [' ', ' ']) := by
  have hfits : cell.length ≤ w := by
    have hbytes := (List.forall₂_iff_get.mp h).2 j (List.getElem?_eq_some_iff.mp hw).1
      (List.getElem?_eq_some_iff.mp hcell).1
    simp only [List.get_eq_getElem, (List.getElem?_eq_some_iff.mp hw).2,
      (List.getElem?_eq_some_iff.mp hcell).2] at hbytes
    exact (Text.length_le_byteSize cell).trans hbytes
  have halign : (List.zipWith alignRight widths row)[j]? = some (alignRight w cell) := by
    rw [List.getElem?_zipWith, hw, hcell]
  have hlength := h.map_length
  have hdrop := drop_columnStart (List.zipWith alignRight widths row) j
  rw [hlength] at hdrop
  obtain ⟨hj, hget⟩ := List.getElem?_eq_some_iff.mp halign
  rw [List.drop_eq_getElem_cons hj, hget] at hdrop
  have hwidth := length_alignRight hfits
  rw [lineText, ← List.drop_drop, hdrop]
  by_cases hlast : (List.zipWith alignRight widths row).drop (j + 1) = []
  · rw [hlast]
    refine ⟨?_, fun hlt => ?_⟩
    · rw [joinCells, List.take_of_length_le hwidth.le, alignRight]
    · have hnone := List.drop_eq_nil_iff.mp hlast
      rw [← hlength, List.length_map] at hlt
      omega
  · rw [joinCells_cons _ hlast]
    refine ⟨?_, fun _ => ?_⟩
    · rw [List.take_left' hwidth, alignRight]
    · rw [List.drop_left' hwidth]
      rfl

/-- A line holds the line feeds of its cells. -/
theorem Fits.count_lineText (h : Fits widths row) {c : Char} (hc : c ≠ ' ') :
    (lineText widths row).count c = (row.map (List.count c)).sum := by
  rw [lineText, count_joinCells hc]
  congr 1
  induction h with
  | nil => rfl
  | cons _ _ ih =>
    rw [List.zipWith_cons_cons, List.map_cons, List.map_cons, ih, count_alignRight hc]

/-- The line of cells without line feeds has none. -/
theorem Fits.feed_notMem_lineText (h : Fits widths row) (hrow : ∀ cell ∈ row, '\n' ∉ cell) :
    '\n' ∉ lineText widths row := by
  rw [← List.count_eq_zero, h.count_lineText (by decide), List.sum_eq_zero_iff_forall_eq_nat]
  intro n hn
  obtain ⟨cell, hcell, rfl⟩ := List.mem_map.mp hn
  exact List.count_eq_zero.mpr (hrow cell hcell)

end

/-- A row fits columns that are as wide as the bytes of its cells. -/
theorem fits_byteSize (row : List (List Char)) : Fits (row.map Text.byteSize) row := by
  induction row with
  | nil => exact .nil
  | cons cell rest ih => exact .cons le_rfl ih

/-- A table consists of lines for the names of the fields and for the rows, and all of them fit
its columns. -/
theorem table_eq {fields : List FieldId} {rows : List (List (List Char))}
    (h : ∀ row ∈ rows, row.length = fields.length) :
    ∃ widths, table fields rows =
        (((fields.map fun f => f.name.toList) :: rows).map (lineText widths)).flatMap
          (· ++ ['\n']) ∧
      ∀ row ∈ (fields.map fun f => f.name.toList) :: rows, Fits widths row := by
  have hlength : ∀ row ∈ rows,
      row.length = ((fields.map fun f => f.name.toList).map Text.byteSize).length := by
    intro row hrow
    rw [h row hrow, List.length_map, List.length_map]
  obtain ⟨hbefore, hothers⟩ := foldl_widen_spec hlength
  refine ⟨_, ?_, List.forall_mem_cons.mpr ⟨hbefore _ (fits_byteSize _), hothers⟩⟩
  rw [List.flatMap_map]
  rfl

/-- What a row shows of a field: its value, or a hyphen if it has none. -/
def cellText (r : Record) (f : FieldId) : List Char :=
  match r.get f with
  | .ok v => v.tableText
  | .error _ => ['-']

/-- A row shows its readable fields. -/
theorem row_eq {r : Record} {fields : List FieldId}
    (h : ∀ f ∈ fields, FlowRecord.Readable r f) : row r fields = .ok (fields.map (cellText r)) := by
  induction fields with
  | nil => rfl
  | cons f rest ih =>
    obtain ⟨hf, hrest⟩ := List.forall_mem_cons.mp h
    have hcell : cell r f = .ok (cellText r f) := by
      rcases hf with ⟨v, hv⟩ | ⟨g, hg⟩
      · rw [cell, cellText, show r.get f = .ok v from hv]
      · rw [cell, cellText, show r.get f = .error (.notSet g) from hg]
    rw [row, hcell, ih hrest, List.map_cons]

/-- The rows show the readable fields of the records. -/
theorem rows?_eq {fields : List FieldId} {rs : List Record}
    (h : ∀ r ∈ rs, ∀ f ∈ fields, FlowRecord.Readable r f) :
    rows? fields rs = .ok (rs.map fun r => fields.map (cellText r)) := by
  induction rs with
  | nil => rfl
  | cons r rest ih =>
    obtain ⟨hr, hrest⟩ := List.forall_mem_cons.mp h
    rw [rows?, row_eq hr, ih hrest, List.map_cons]

/-- A cell that holds a line feed is a text. -/
theorem exists_string_of_cellText {r : Record} {f : FieldId} (h : '\n' ∈ cellText r f) :
    ∃ s : String, r.get f = .ok (.string s) ∧ s.toList = cellText r f := by
  unfold cellText at h ⊢
  split at h
  · next v hv =>
    obtain ⟨s, rfl, -⟩ := Value.exists_string_of_feed h
    exact ⟨s, hv, rfl⟩
  · exact absurd h (by decide)

/-- The lines of a table hold the line feeds of the cells, and one ends each line. -/
theorem count_feed {widths : List Nat} {rows : List (List (List Char))}
    (h : ∀ row ∈ rows, Fits widths row) :
    ((rows.map (lineText widths)).flatMap (· ++ ['\n'])).count '\n' =
      rows.length + (rows.flatten.map (List.count '\n')).sum := by
  induction rows with
  | nil => rfl
  | cons row rest ih =>
    obtain ⟨hrow, hrest⟩ := List.forall_mem_cons.mp h
    rw [List.map_cons, List.flatMap_cons, List.count_append, List.count_append, ih hrest,
      hrow.count_lineText (by decide), List.flatten_cons, List.map_append, List.sum_append,
      List.length_cons, List.count_singleton_self]
    omega

/-- A table under names without line feeds has a line for each row, one for the names, an empty one
at its end and one more for each line feed in a cell. -/
theorem length_lines_table {widths : List Nat} {names : List (List Char)}
    {rows : List (List (List Char))} (h : ∀ row ∈ names :: rows, Fits widths row)
    (hnames : ∀ name ∈ names, '\n' ∉ name) :
    (Text.lines (String.ofList
        (((names :: rows).map (lineText widths)).flatMap (· ++ ['\n'])))).length =
      rows.length + 2 + (rows.flatten.map (List.count '\n')).sum := by
  have hnone : (names.map (List.count '\n')).sum = 0 := by
    rw [List.sum_eq_zero_iff_forall_eq_nat]
    intro n hn
    obtain ⟨name, hname, rfl⟩ := List.mem_map.mp hn
    exact List.count_eq_zero.mpr (hnames name hname)
  rw [Text.length_lines, String.toList_ofList, count_feed h, List.flatten_cons, List.map_append,
    List.sum_append, hnone, List.length_cons]
  omega

/-- The lines of the text of a table are its lines if no cell holds a line feed. -/
theorem lines_table {widths : List Nat} {rows : List (List (List Char))}
    (h : ∀ row ∈ rows, Fits widths row) (hcells : ∀ row ∈ rows, ∀ cell ∈ row, '\n' ∉ cell) :
    Text.lines (String.ofList ((rows.map (lineText widths)).flatMap (· ++ ['\n']))) =
      (rows.map (lineText widths)).map String.ofList ++ [""] := by
  refine Text.lines_feed fun line hline => ?_
  obtain ⟨row, hrow, rfl⟩ := List.mem_map.mp hline
  exact (h row hrow).feed_notMem_lineText (hcells row hrow)

end Report

/-- No field has a name with a line feed. -/
theorem FieldId.feed_notMem_name (f : FieldId) : '\n' ∉ f.name.toList := by
  have hcatalog : ∀ e ∈ catalog, '\n' ∉ e.name.toList := by decide
  rw [name]
  cases hinfo : f.info? with
  | none => decide
  | some e => exact hcatalog e (List.mem_of_find?_eq_some hinfo)

namespace Aggregator

variable {a : Aggregator}

/-- The results as a table are that of the cells of the first rows. -/
theorem Sound.report_table (h : a.Sound) (hcoherent : a.Coherent) {limit m : Nat}
    (hm : m = if limit = 0 then a.groupCount else min limit a.groupCount)
    {shown : List (List (List Char))}
    (hshown : Report.rows? a.layout.fields (a.rows.take m) = .ok shown) :
    (a.report .table limit).2 = .ok ⟨m, String.ofList (Report.table a.layout.fields shown)⟩ := by
  obtain ⟨hwalk, hlength⟩ := h.walk_take hcoherent hm
  unfold report
  cases hresult : a.walk limit with
  | mk b result =>
    rw [hresult] at hwalk
    obtain rfl : result = .ok (a.rows.take m) := hwalk
    simp only [hshown, Except.map, hlength]

/-- The table is aligned, and it is framed by lines unless a text breaks its line. In every state
that records lead to and for every limit, the table has a line for the names of the fields and one
for each of the records that the walk takes. All of them have the same number of characters. The
cell of a column ends at the same place in each of them, with nothing but blanks in front of it up
to the start of the column, and two blanks stand between two columns. Between its line feeds the
text of the table has an empty line behind these, and one more for each line feed that a cell
holds; only the cell of a text can hold one. If none does, the lines of the text are those of the
table. -/
theorem RecordReachable.table_aligned (h : a.RecordReachable) (limit : Nat) :
    let m := if limit = 0 then a.groupCount else min limit a.groupCount
    ∃ records shown widths, (a.walk limit).2 = .ok records ∧ records.length = m ∧
      Report.rows? a.layout.fields records = .ok shown ∧ shown.length = m ∧
      let table := (a.layout.fields.map fun f => f.name.toList) :: shown
      let lines := table.map (Report.lineText widths)
      let text := String.ofList (lines.flatMap (· ++ ['\n']))
      (a.report .table limit).2 = .ok ⟨m, text⟩ ∧
      (∀ line ∈ lines, line.length = Report.lineWidth widths) ∧
      (∀ row ∈ table, row.length = widths.length ∧
        ∀ (j w : Nat) (cell : List Char), widths[j]? = some w → row[j]? = some cell →
          ((Report.lineText widths row).drop (Report.columnStart widths j)).take w =
              List.replicate (w - cell.length) ' ' ++ cell ∧
            (j + 1 < widths.length →
              ((Report.lineText widths row).drop (Report.columnStart widths j + w)).take 2 =
                [' ', ' '])) ∧
      (Text.lines text).length = m + 2 + (shown.flatten.map (List.count '\n')).sum ∧
      ((∀ cell ∈ shown.flatten, '\n' ∉ cell) →
        Text.lines text = lines.map String.ofList ++ [""]) ∧
      ∀ cell ∈ shown.flatten, '\n' ∈ cell →
        ∃ r ∈ records, ∃ f ∈ a.layout.fields, ∃ s : String,
          r.get f = .ok (.string s) ∧ s.toList = cell := by
  intro m
  have hm : m = if limit = 0 then a.groupCount else min limit a.groupCount := rfl
  have hsound := h.sound
  obtain ⟨hwalk, hlength⟩ := hsound.walk_take h.reachable.coherent hm
  have hreadable : ∀ r ∈ a.rows.take m, ∀ f ∈ a.layout.fields, FlowRecord.Readable r f :=
    fun r hr f hf => hsound.readable (List.mem_of_mem_take hr) hf
  have hshown := Report.rows?_eq hreadable
  have hreport := hsound.report_table h.reachable.coherent hm hshown
  have hrows : ∀ row ∈ (a.rows.take m).map fun r => a.layout.fields.map (Report.cellText r),
      row.length = a.layout.fields.length := by
    intro row hrow
    obtain ⟨r, -, rfl⟩ := List.mem_map.mp hrow
    exact List.length_map _
  obtain ⟨widths, htable, hfits⟩ := Report.table_eq hrows
  rw [htable] at hreport
  have hnames : ∀ name ∈ a.layout.fields.map fun f => f.name.toList, '\n' ∉ name := by
    intro name hname
    obtain ⟨f, -, rfl⟩ := List.mem_map.mp hname
    exact f.feed_notMem_name
  refine ⟨_, _, widths, hwalk, hlength, hshown, (List.length_map _).trans hlength, hreport,
    ?_, ?_, ?_, ?_, ?_⟩
  · intro line hline
    obtain ⟨row, hrow, rfl⟩ := List.mem_map.mp hline
    exact (hfits row hrow).length_lineText
  · intro row hrow
    exact ⟨(hfits row hrow).length_eq.symm, fun j w cell => (hfits row hrow).column_lineText⟩
  · rw [Report.length_lines_table hfits hnames, List.length_map, hlength]
  · intro hcells
    refine Report.lines_table hfits (List.forall_mem_cons.mpr ⟨hnames, ?_⟩)
    exact fun row hrow cell hcell => hcells cell (List.mem_flatten.mpr ⟨row, hrow, hcell⟩)
  · intro cell hcell hfeed
    obtain ⟨row, hrow, hcell⟩ := List.mem_flatten.mp hcell
    obtain ⟨r, hr, rfl⟩ := List.mem_map.mp hrow
    obtain ⟨f, hf, rfl⟩ := List.mem_map.mp hcell
    exact ⟨r, hr, f, hf, Report.exists_string_of_cellText hfeed⟩

/-- A run that counts the bytes of one user. -/
def userRun (name : String) : List Operation :=
  [.configure ⟨.userName, .auto, .none, 0, 0⟩, .configure ⟨.bytes, .auto, .none, 0, 0⟩,
   .write (fillRecord Record.empty [(.userName, .string name), (.bytes, .u64 100)]).1]

/-- Users are counted by records of this library. -/
theorem recordReachable_userRun (name : String) :
    ((new 1 TallyTable.polynomialSpread).run (userRun name)).RecordReachable := by
  refine ⟨1, TallyTable.polynomialSpread, userRun name, ?_, rfl⟩
  simp [userRun, Operation.OnRecords]

/-- The name in the table has more bytes than characters. Both lines have the same length. -/
theorem table_aligned_userRun :
    let a := (new 1 TallyTable.polynomialSpread).run (userRun "Zoë Ångström")
    ∃ (lines : List (List Char)) (widths : List Nat), (a.report .table 0).2 =
        .ok ⟨1, String.ofList (lines.flatMap (· ++ ['\n']))⟩ ∧
      lines.length = 2 ∧ ∀ line ∈ lines, line.length = Report.lineWidth widths := by
  intro a
  obtain ⟨records, shown, widths, -, -, -, hshown, hreport, hlines, -⟩ :=
    (recordReachable_userRun "Zoë Ångström").table_aligned 0
  have hcount : a.groupCount = 1 := by decide
  rw [hcount] at hreport hshown
  refine ⟨_, widths, hreport, ?_, hlines⟩
  rw [List.length_map, List.length_cons, hshown]
  rfl

/-- A name with a line feed breaks its line, so that the table of one group has three lines of
which no two have the same length. -/
theorem report_breaks_line :
    let a := (new 1 TallyTable.polynomialSpread).run (userRun "a\nb")
    let text := "username  bytes\n" ++ "     a\nb    100\n"
    a.RecordReachable ∧ (a.report .table 0).2 = .ok ⟨1, text⟩ ∧
      Text.lines text = ["username  bytes", "     a", "b    100", ""] := by
  intro a text
  have hreachable := recordReachable_userRun "a\nb"
  have hsound := hreachable.sound
  have hgroups : [("s:a\nb;", ⟨[.string "a\nb"], [some (.u64 100)]⟩)] =
      a.table.ordered a.layout a.ordering :=
    hsound.placed.eq_ordered (by decide) (by decide)
  have hcount : a.groupCount = 1 := by decide
  have hall : 1 = if 0 = 0 then a.groupCount else min 0 a.groupCount := hcount.symm
  have hrows : Report.rows? a.layout.fields (a.rows.take 1) =
      .ok [[['a', '\n', 'b'], ['1', '0', '0']]] := by
    rw [rows, ← hgroups]
    decide +kernel
  have hreport := hsound.report_table hreachable.reachable.coherent hall hrows
  refine ⟨hreachable, ?_, by decide⟩
  rw [hreport]
  decide

end Aggregator

end FlowTally
