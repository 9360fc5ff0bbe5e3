import FlowTally.Aggregator.Ingest
import FlowTally.Proofs.Text.Lines

/-!
# What a line without a record does to an ingestion

The lines of an input are taken one after the other, each from where the one before it left the
aggregation and the counts. A line in which no record stands leaves the aggregation alone, and what
it adds to the counts is added to those of the other lines, so it may as well not be there. A line
that is not UTF-8 is no line of this kind: it ends the input, and nothing behind it is read.
-/

namespace FlowTally

/-- Whether a line, without the blank characters around it, is a record. -/
def Record.StandsIn (text : String) : Prop :=
  ∃ r, ofLine (String.ofList (Text.trim text.toList)) = .ok r

/-- No record stands in a blank line. -/
theorem Record.not_standsIn_of_blank {text : String} (h : Text.trim text.toList = []) :
    ¬StandsIn text := by
  rintro ⟨r, hr⟩
  rw [h] at hr
  have hmalformed : Json.read? (String.ofList []) = none := by decide +kernel
  simp only [ofLine, hmalformed, reduceCtorEq] at hr

namespace IngestSummary

/-- What a line without a record brings. -/
def ofBad (text : String) : IngestSummary :=
  if Text.trim text.toList = [] then zero else ⟨0, 1, 0, 1⟩

variable (s : IngestSummary)

/-- Nothing on top of anything. -/
theorem zero_add : zero.add s = s := by
  simp only [add, zero, Nat.zero_add]

/-- A skipped line is what a line without a record brings that is not blank. -/
theorem countSkipped_eq : s.countSkipped = (⟨0, 1, 0, 1⟩ : IngestSummary).add s := by
  simp only [add, countSkipped, Nat.zero_add, Nat.add_comm 1]

end IngestSummary

namespace Aggregator

variable (a : Aggregator) (source : String)

/-- What was counted before is added to what a line brings. -/
theorem ingestLine_add (t s : IngestSummary) (text : String) :
    a.ingestLine (t.add s) text =
      ((a.ingestLine s text).1, t.add (a.ingestLine s text).2) := by
  unfold ingestLine
  cases Text.trim text.toList with
  | nil => rfl
  | cons c rest =>
    dsimp only
    unfold ingestRecord
    cases Record.ofLine (String.ofList (c :: rest)) with
    | error e => rfl
    | ok r =>
      dsimp only
      rcases a.write r with ⟨b, _ | _⟩ <;> rfl

/-- What was counted before is added to what the lines bring. -/
theorem ingestLines_add (t s : IngestSummary) (lines : List (Option String)) :
    a.ingestLines source (t.add s) lines =
      ((a.ingestLines source s lines).1, (a.ingestLines source s lines).2.map t.add) := by
  induction lines generalizing a s with
  | nil => rfl
  | cons line rest ih =>
    cases line with
    | none => rfl
    | some text =>
      simp only [ingestLines, ingestLine_add]
      exact ih (a.ingestLine s text).1 (a.ingestLine s text).2

/-- Lines behind others are taken from where those left off, unless one of those ended the
input. -/
theorem ingestLines_append (s : IngestSummary) (front back : List (Option String)) :
    a.ingestLines source s (front ++ back) =
      match a.ingestLines source s front with
      | (b, .ok t) => b.ingestLines source t back
      | (b, .error e) => (b, .error e) := by
  induction front generalizing a s with
  | nil => rfl
  | cons line rest ih =>
    cases line with
    | none => rfl
    | some text => exact ih (a.ingestLine s text).1 (a.ingestLine s text).2

/-- An input is read to its end if all its lines can be decoded. -/
theorem ingestLines_ok_iff (s : IngestSummary) (lines : List (Option String)) :
    (∃ t, (a.ingestLines source s lines).2 = .ok t) ↔ none ∉ lines := by
  induction lines generalizing a s with
  | nil => exact ⟨fun _ => List.not_mem_nil, fun _ => ⟨s, rfl⟩⟩
  | cons line rest ih =>
    cases line with
    | none =>
      constructor
      · rintro ⟨t, ht⟩
        cases ht
      · intro hmem
        exact absurd List.mem_cons_self hmem
    | some text =>
      have hmem : none ∈ some text :: rest ↔ none ∈ rest := by
        simp only [List.mem_cons, reduceCtorEq, false_or]
      rw [hmem]
      exact ih (a.ingestLine s text).1 (a.ingestLine s text).2

/-- Reading ends for one reason only. -/
theorem ingestLines_error {s : IngestSummary} {lines : List (Option String)} {e : IngestError}
    (h : (a.ingestLines source s lines).2 = .error e) : e = .undecodable source := by
  induction lines generalizing a s with
  | nil => cases h
  | cons line rest ih =>
    cases line with
    | none => exact (Except.error.inj h).symm
    | some text => exact ih (a.ingestLine s text).1 h

/-- A line without a record leaves the aggregation alone and counts as skipped unless it is
blank. -/
theorem ingestLine_of_bad {text : String} (hbad : ¬Record.StandsIn text) (s : IngestSummary) :
    a.ingestLine s text = (a, (IngestSummary.ofBad text).add s) := by
  unfold ingestLine IngestSummary.ofBad
  cases htrim : Text.trim text.toList with
  | nil => rw [if_pos rfl, IngestSummary.zero_add]
  | cons c rest =>
    rw [if_neg (List.cons_ne_nil c rest), ← IngestSummary.countSkipped_eq]
    dsimp only
    unfold ingestRecord
    cases hline : Record.ofLine (String.ofList (c :: rest)) with
    | error e => rfl
    | ok r => exact absurd ⟨r, by rw [htrim, hline]⟩ hbad

/-- A line without a record adds what it brings to what the other lines bring, wherever it
stands. -/
theorem ingestLines_bad {text : String} (hbad : ¬Record.StandsIn text) (s : IngestSummary)
    (front back : List (Option String)) :
    a.ingestLines source s (front ++ some text :: back) =
      ((a.ingestLines source s (front ++ back)).1,
        (a.ingestLines source s (front ++ back)).2.map (IngestSummary.ofBad text).add) := by
  rw [ingestLines_append, ingestLines_append]
  rcases a.ingestLines source s front with ⟨b, e | t⟩
  · rfl
  · dsimp only
    rw [ingestLines, b.ingestLine_of_bad hbad t]
    exact b.ingestLines_add source (IngestSummary.ofBad text) t back

/-- A line that cannot be decoded ends the input where the lines in front of it left off. -/
theorem ingestLines_undecodable (s : IngestSummary) (front back : List (Option String)) :
    a.ingestLines source s (front ++ none :: back) =
      ((a.ingestLines source s front).1, .error (.undecodable source)) := by
  rw [ingestLines_append]
  cases hfront : a.ingestLines source s front with
  | mk b answer =>
    cases answer with
    | ok t => rfl
    | error e =>
      have herror : (a.ingestLines source s front).2 = .error e := by rw [hfront]
      rw [a.ingestLines_error source herror]

/-- A line that can be decoded is never fatal: an input is read to its end unless one of its lines
is not UTF-8, and a line without a record leaves what the others do as it is and adds one skipped
line to the counts unless it is blank. A line that is not UTF-8 ends the input: it leaves the
aggregation as the lines in front of it made it, and those behind it are lost. -/
theorem ingest_of_bad_line :
    (∀ input, (∃ s, (a.ingest source input).2 = .ok s) ↔
      ∀ line : Text.InputLine, line.input = input → line.text ≠ none) ∧
    ∀ line : Text.InputLine,
      (∀ text, line.text = some text → ¬Record.StandsIn text →
        a.ingest source line.input = ((a.ingest source line.others).1,
          (a.ingest source line.others).2.map (IngestSummary.ofBad text).add)) ∧
      (line.text = none →
        a.ingest source line.input =
          ((a.ingest source line.front).1, .error (.undecodable source))) := by
  refine ⟨fun input => ?_, fun line => ⟨fun text htext hbad => ?_, fun htext => ?_⟩⟩
  · rw [ingest, ingestLines_ok_iff]
    constructor
    · rintro hmem line rfl htext
      apply hmem
      rw [line.inputLines_input, htext]
      exact List.mem_append_right _ List.mem_cons_self
    · intro hlines hmem
      obtain ⟨line, hinput, htext⟩ := Text.exists_inputLine hmem
      exact hlines line hinput htext
  · simp only [ingest, line.inputLines_input, line.inputLines_others, htext]
    exact a.ingestLines_bad source hbad .zero _ _
  · simp only [ingest, line.inputLines_input, htext]
    exact a.ingestLines_undecodable source .zero _ _

/-- A line between two lines with a record each. -/
def betweenPorts (body : List UInt8) (hbody : 10 ∉ body) : Text.InputLine where
  front := "\x7b\"srcport\":80\x7d\n".toUTF8
  body := body
  feed := [10]
  back := "\x7b\"srcport\":81\x7d".toUTF8
  endsLine_front := .inr ⟨"\x7b\"srcport\":80\x7d".toUTF8.toList, by decide +kernel⟩
  feed_notMem := hbody
  feed_or_last := .inl rfl

/-- An aggregation by source port. -/
def bySourcePort : Aggregator := ((new 1 fun _ => 0).configure ⟨.srcPort, .key, .none, 0, 0⟩).1

/-- Between two records, a line that is no JSON text counts as skipped and one of a carriage
return not at all; both records are counted and grouped all the same. -/
theorem ingest_bad_line_betweenPorts :
    let words := betweenPorts "not json".toUTF8.toList (by decide +kernel)
    let blank := betweenPorts [13] (by decide)
    let others := bySourcePort.ingest "input" words.others
    others.1.groupCount = 2 ∧
      bySourcePort.ingest "input" words.input = (others.1, .ok ⟨0, 3, 2, 1⟩) ∧
      bySourcePort.ingest "input" blank.input = (others.1, .ok ⟨0, 2, 2, 0⟩) := by
  intro words blank others
  have hothers : others.2 = .ok ⟨0, 2, 2, 0⟩ := by decide +kernel
  have hwords : ¬Record.StandsIn "not json" := by
    rintro ⟨r, hr⟩
    have hmalformed : Json.read? (String.ofList (Text.trim "not json".toList)) = none := by
      decide +kernel
    simp only [Record.ofLine, hmalformed, reduceCtorEq] at hr
  have hblank : ¬Record.StandsIn "\r" := Record.not_standsIn_of_blank (by decide +kernel)
  have hwordsCount : others.2.map (IngestSummary.ofBad "not json").add = .ok ⟨0, 3, 2, 1⟩ := by
    rw [hothers]
    decide +kernel
  have hblankCount : others.2.map (IngestSummary.ofBad "\r").add = .ok ⟨0, 2, 2, 0⟩ := by
    rw [hothers]
    decide +kernel
  refine ⟨by decide +kernel, ?_, ?_⟩
  · have hline := ((bySourcePort.ingest_of_bad_line "input").2 words).1
    exact (hline "not json" (by decide +kernel) hwords).trans (Prod.ext rfl hwordsCount)
  · have hline := ((bySourcePort.ingest_of_bad_line "input").2 blank).1
    exact (hline "\r" (by decide +kernel) hblank).trans (Prod.ext rfl hblankCount)

/-- Between two records, one byte that is not UTF-8 makes the input fail, and the second record is
lost. Without this line both are counted and grouped. -/
theorem ingest_undecodable_betweenPorts :
    let line := betweenPorts [0xff] (by decide)
    line.text = none ∧
      (bySourcePort.ingest "input" line.input).2 = .error (.undecodable "input") ∧
      (bySourcePort.ingest "input" line.input).1.groupCount = 1 ∧
      (bySourcePort.ingest "input" line.others).2 = .ok ⟨0, 2, 2, 0⟩ ∧
      (bySourcePort.ingest "input" line.others).1.groupCount = 2 := by
  decide +kernel

end Aggregator

end FlowTally
