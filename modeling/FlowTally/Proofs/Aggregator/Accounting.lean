import FlowTally.Proofs.Aggregator.Counting
import FlowTally.Proofs.Aggregator.Grouping
import FlowTally.Proofs.Aggregator.Ingestion
import FlowTally.Proofs.Aggregator.Kept
import FlowTally.Proofs.Layout.Reading
import FlowTally.Proofs.Record.Named
import FlowTally.Proofs.Text.Encoded

/-!
# The accounts of an ingestion

A record that is read from a line has storage, and every column of a configured layout is in the
catalog, so such a record is never refused. What an encoded text does to an aggregation is
therefore to write the records of its lines in turn, and each line that is not blank counts as a
record or as skipped, by what the line alone says. So a text may as well be cut behind a line feed.
-/

namespace FlowTally

/-- The records of those lines that are records. -/
def Record.accepted (lines : List String) : List Record :=
  lines.filterMap fun line => (ofLine line).toOption

/-- What lines bring that are not blank. -/
def IngestSummary.ofLines (lines : List String) : IngestSummary where
  files := 0
  lines := lines.length
  records := (Record.accepted lines).length
  skipped := lines.length - (Record.accepted lines).length

/-- The records of lines are those of the first lines and those of the others. -/
theorem Record.accepted_append (front back : List String) :
    accepted (front ++ back) = accepted front ++ accepted back :=
  List.filterMap_append

/-- There are no more records than lines. -/
theorem Record.length_accepted_le (lines : List String) :
    (accepted lines).length ≤ lines.length :=
  List.length_filterMap_le _ lines

namespace IngestSummary

/-- What lines bring is what the first lines and what the others bring. -/
theorem ofLines_append (front back : List String) :
    ofLines (front ++ back) = (ofLines front).add (ofLines back) := by
  have hfront := Record.length_accepted_le front
  have hback := Record.length_accepted_le back
  simp only [ofLines, add, Record.accepted_append, List.length_append, mk.injEq, true_and]
  omega

/-- Summaries may be added in any grouping. -/
theorem add_assoc (s t u : IngestSummary) : (s.add t).add u = s.add (t.add u) := by
  simp only [add, Nat.add_assoc]

end IngestSummary

namespace Aggregator

variable {a : Aggregator}

/-- Records may be written in two parts. -/
theorem writeAll_append {R : Type} [FlowRecord R] (a : Aggregator) (front back : List R) :
    a.writeAll (front ++ back) = (a.writeAll front).writeAll back :=
  List.foldl_append

/-- A record that is read from a line is never refused. -/
theorem write_of_ofLine (hl : a.layout.Valid) {line : String} {r : Record}
    (h : Record.ofLine line = .ok r) : (a.write r).2 = .ok () := by
  simp only [write, contribution_eq hl (Record.allocated_of_ofLine h)]

/-- A line that is not blank is written if it is a record, and counted. -/
theorem ingestRecord_eq (hl : a.layout.Valid) (s : IngestSummary) (line : String) :
    a.ingestRecord s line =
      (a.writeAll (Record.accepted [line]), s.add (.ofLines [line])) := by
  unfold ingestRecord
  cases hline : Record.ofLine line with
  | error e =>
    have haccepted : Record.accepted [line] = [] :=
      List.filterMap_cons_none (by rw [hline]; rfl)
    rw [IngestSummary.ofLines, haccepted]
    rfl
  | ok r =>
    have haccepted : Record.accepted [line] = [r] :=
      List.filterMap_cons_some (by rw [hline]; rfl)
    have hok := write_of_ofLine hl hline
    rw [IngestSummary.ofLines, haccepted]
    dsimp only
    rcases hwrite : a.write r with ⟨b, answer⟩
    rw [hwrite] at hok
    obtain rfl : answer = .ok () := hok
    have hwritten : a.writeAll [r] = b := congrArg Prod.fst hwrite
    rw [hwritten]
    rfl

/-- A line is written if it is a record, and counted unless it is blank. -/
theorem ingestLine_eq (hl : a.layout.Valid) (s : IngestSummary) (line : String) :
    a.ingestLine s line = (a.writeAll (Record.accepted (Text.trimmed? line).toList),
      s.add (.ofLines (Text.trimmed? line).toList)) := by
  unfold ingestLine Text.trimmed?
  cases Text.trim line.toList with
  | nil => rfl
  | cons c rest => exact ingestRecord_eq hl s _

/-- Lines that can be decoded are read to their end. The records among them are written in turn,
and all that are not blank are counted. -/
theorem ingestLines_eq (hl : a.layout.Valid) (source : String) (s : IngestSummary)
    (lines : List String) :
    a.ingestLines source s (lines.map some) =
      (a.writeAll (Record.accepted (lines.filterMap Text.trimmed?)),
        .ok (s.add (.ofLines (lines.filterMap Text.trimmed?)))) := by
  induction lines generalizing a s with
  | nil => rfl
  | cons line rest ih =>
    have hsplit : (line :: rest).filterMap Text.trimmed? =
        (Text.trimmed? line).toList ++ rest.filterMap Text.trimmed? := by
      cases htrim : Text.trimmed? line with
      | none => rw [List.filterMap_cons_none htrim]; rfl
      | some text => rw [List.filterMap_cons_some htrim]; rfl
    have hvalid : (a.writeAll (Record.accepted (Text.trimmed? line).toList)).layout.Valid := by
      rw [(a.writeAll_keeps _).1]
      exact hl
    rw [List.map_cons, ingestLines, ingestLine_eq hl]
    dsimp only
    rw [ih hvalid, hsplit, Record.accepted_append, writeAll_append, IngestSummary.ofLines_append,
      IngestSummary.add_assoc]

/-- An encoded text is read by its lines. -/
theorem ingest_toUTF8 (a : Aggregator) (source text : String) :
    a.ingest source text.toUTF8 =
      a.ingestLines source .zero ((Text.lines text).map some) := by
  rcases Text.inputLines_toUTF8 text with hlines | hlines
  · rw [hlines, ingest]
  · -- The empty line behind the last line feed leaves no trace.
    rw [hlines, ingestLines_append, ingest]
    rcases a.ingestLines source .zero (Text.inputLines text.toUTF8) with ⟨b, e | s⟩
    · rfl
    · rfl

/-- An encoded text has the records among its lines written in turn. -/
theorem ingest_text (hl : a.layout.Valid) (source text : String) :
    a.ingest source text.toUTF8 = (a.writeAll (Record.accepted (Text.filledLines text)),
      .ok (.ofLines (Text.filledLines text))) := by
  rw [ingest_toUTF8, ingestLines_eq hl, IngestSummary.zero_add]
  rfl

/-- Writing records leads from a reachable state to another. -/
theorem reachable_writeAll (h : a.Reachable) {R : Type} [FlowRecord R] (rs : List R) :
    (a.writeAll rs).Reachable := by
  induction rs generalizing a with
  | nil => exact h
  | cons r rest ih => exact ih (h.step (.write r))

/-- Records that are read from lines are written without a refusal. -/
theorem Reachable.writeErrors_writeAll (h : a.Reachable) (lines : List String) :
    (a.writeAll (Record.accepted lines)).counters.writeErrors = a.counters.writeErrors := by
  have hshares : ∀ shares ∈ (Record.accepted lines).map (a.layout.shares a.pairOnce),
      ¬shares.isEmpty = true := by
    intro shares hmem hempty
    obtain ⟨r, hr, rfl⟩ := List.mem_map.mp hmem
    obtain ⟨line, -, hline⟩ := List.mem_filterMap.mp hr
    have hok := write_of_ofLine h.coherent.valid (Record.ofLine_of_toOption hline)
    exact (a.write_succeeds_iff r).mp hok (List.isEmpty_iff.mp hempty)
  rw [(Counted.writeAll h.placed (Record.accepted lines)).refused_eq,
    List.countP_eq_zero.mpr hshares, Nat.add_zero]

/-- In every reachable state an encoded text is read to its end. Its lines that are not blank after
trimming count as lines, those of them that are records as records, and the others as skipped. The
aggregation becomes what writing exactly these records in turn makes of it, and none is refused.
Cutting the text behind a line feed and ingesting both parts leads to the same aggregation, and the
counts of the parts add up to those of the text. -/
theorem Reachable.ingest_accounts (h : a.Reachable) (source text : String) :
    a.ingest source text.toUTF8 =
        (a.writeAll (Record.accepted (Text.filledLines text)),
          .ok {
            files := 0
            lines := (Text.filledLines text).length
            records := (Record.accepted (Text.filledLines text)).length
            skipped := (Text.filledLines text).length -
              (Record.accepted (Text.filledLines text)).length }) ∧
      (∀ line r, Record.ofLine line = .ok r → (a.write r).2 = .ok ()) ∧
      (a.ingest source text.toUTF8).1.counters.writeErrors = a.counters.writeErrors ∧
      ∀ front back, text = front ++ "\n" ++ back →
        ∃ b s t, a.ingest source (front ++ "\n").toUTF8 = (b, .ok s) ∧
          b.ingest source back.toUTF8 = ((a.ingest source text.toUTF8).1, .ok t) ∧
          (a.ingest source text.toUTF8).2 = .ok (s.add t) := by
  have hvalid := h.coherent.valid
  refine ⟨ingest_text hvalid source text, fun line r => write_of_ofLine hvalid, ?_,
    fun front back hcut => ?_⟩
  · rw [ingest_text hvalid]
    exact h.writeErrors_writeAll _
  · have hfront := ingest_text hvalid source (front ++ "\n")
    have hreached := reachable_writeAll h (Record.accepted (Text.filledLines (front ++ "\n")))
    have hback := ingest_text hreached.coherent.valid source back
    have hlines : Text.filledLines text =
        Text.filledLines (front ++ "\n") ++ Text.filledLines back := by
      rw [hcut, Text.filledLines_append]
    refine ⟨_, _, .ofLines (Text.filledLines back), hfront, ?_, ?_⟩
    · rw [hback, ingest_text hvalid, hlines, Record.accepted_append, writeAll_append]
    · rw [ingest_text hvalid, hlines, IngestSummary.ofLines_append]

/-- An aggregation by the pair of ports. -/
def byPorts : Aggregator :=
  ((new 2 TallyTable.polynomialSpread).configure ⟨.port, .key, .none, 0, 0⟩).1

/-- A record in front of a carriage return. -/
def portsFront : String := "\x7b\"srcport\":80,\"dstport\":53\x7d\r"

/-- A blank line, another record and words. -/
def portsBack : String := " \t\r\n  \x7b\"port\":53\x7d\nno record"

/-- Both records are counted and grouped, and the words are skipped. So it is if the text is cut
behind the first record. -/
theorem ingest_accounts_ports :
    byPorts.Reachable ∧
      (byPorts.ingest "input" (portsFront ++ "\n" ++ portsBack).toUTF8).2 = .ok ⟨0, 3, 2, 1⟩ ∧
      (byPorts.ingest "input" (portsFront ++ "\n" ++ portsBack).toUTF8).1.groupCount = 2 ∧
      ∃ b, byPorts.ingest "input" (portsFront ++ "\n").toUTF8 = (b, .ok ⟨0, 1, 1, 0⟩) ∧
        b.ingest "input" portsBack.toUTF8 =
          ((byPorts.ingest "input" (portsFront ++ "\n" ++ portsBack).toUTF8).1,
            .ok ⟨0, 2, 1, 1⟩) := by
  have hreachable : byPorts.Reachable :=
    ⟨2, TallyTable.polynomialSpread, [.configure ⟨.port, .key, .none, 0, 0⟩], rfl⟩
  obtain ⟨htext, -, -, hcut⟩ :=
    hreachable.ingest_accounts "input" (portsFront ++ "\n" ++ portsBack)
  obtain ⟨b, s, t, hfront, hback, -⟩ := hcut portsFront portsBack rfl
  have hs : (byPorts.ingest "input" (portsFront ++ "\n").toUTF8).2 = .ok ⟨0, 1, 1, 0⟩ := by
    decide +kernel
  have ht : ((byPorts.ingest "input" (portsFront ++ "\n").toUTF8).1.ingest "input"
      portsBack.toUTF8).2 = .ok ⟨0, 2, 1, 1⟩ := by
    decide +kernel
  rw [hfront] at hs ht
  rw [hback] at ht
  obtain rfl := Except.ok.inj hs
  obtain rfl := Except.ok.inj ht
  refine ⟨hreachable, ?_, by decide +kernel, b, hfront, hback⟩
  rw [htext]
  decide +kernel

end Aggregator

end FlowTally
