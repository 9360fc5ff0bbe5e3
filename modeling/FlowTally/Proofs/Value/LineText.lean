import FlowTally.Proofs.Address.ReadBack
import FlowTally.Proofs.Decimal.JsonText
import FlowTally.Proofs.Json.ReadBack
import FlowTally.Proofs.Time.KeyText
import FlowTally.Record.Line

/-!
# What the JSON text of a value tells

The JSON text of a value tells it among the values of its type, down to the sign of a zero. There
are three exceptions: numbers that are not finite are all null, and points in time are told down to
the millisecond only and up to their settled form.
-/

namespace FlowTally.Value

/-- Whether a value is one that a line can hold: no infinite number, no NaN and no point in time
that is not settled. -/
def IsRegular : Value → Prop
  | .f64 x => x.isFinite = true
  | .timestamp t => t.IsSettled
  | _ => True

/-- A value without what a point in time has below the millisecond. -/
def toMillis : Value → Value
  | .timestamp t => .timestamp t.toMillis
  | v => v

/-- Only points in time can be the same down to the millisecond and yet differ. -/
theorem exists_timestamps_of_toMillis_eq {v w : Value} (h : v.toMillis = w.toMillis)
    (hne : v ≠ w) : ∃ t u, v = .timestamp t ∧ w = .timestamp u ∧ t.toMillis = u.toMillis := by
  cases v with
  | timestamp t =>
    cases w with
    | timestamp u => exact ⟨t, u, rfl, rfl, Value.timestamp.inj h⟩
    | _ => cases h
  | _ =>
    cases w with
    | timestamp u => cases h
    | _ => exact absurd h hne

/-- Finite numbers with the same JSON text are the same. -/
theorem f64_eq_of_print {x y : Binary64} (hx : x.isFinite = true) (hy : y.isFinite = true)
    (h : (f64 x).toJson.print = (f64 y).toJson.print) : x = y := by
  rw [toJson, toJson, if_pos hx, if_pos hy, Json.print, Json.print, Json.printNumber,
    Json.printNumber, Binary64.jsonText?_eq hx, Binary64.jsonText?_eq hy, Option.getD_some,
    Option.getD_some] at h
  have htext : x.jsonText? = y.jsonText? := by
    rw [Binary64.jsonText?_eq hx, Binary64.jsonText?_eq hy, h]
  exact Binary64.jsonText?_injective hx hy htext

/-- Regular values of one type with the same JSON text are the same down to the millisecond. -/
theorem toMillis_eq_of_print {v w : Value} (htype : v.type = w.type) (hv : v.IsRegular)
    (hw : w.IsRegular) (h : v.toJson.print = w.toJson.print) : v.toMillis = w.toMillis := by
  have hword : ∀ {m n : Nat}, Json.print (.num (.integer m)) = Json.print (.num (.integer n)) →
      m = n := by
    intro m n hprint
    rw [Json.print_word, Json.print_word] at hprint
    exact Decimal.digits_injective hprint
  have htext : ∀ {cs ds : List Char}, Json.print (.str (String.ofList cs)) =
      Json.print (.str (String.ofList ds)) → cs = ds := by
    intro cs ds hprint
    rw [Json.print, Json.print] at hprint
    exact String.ofList_injective (Json.printString_injective hprint)
  cases v with
  | u8 m =>
    cases w with
    | u8 n => exact congrArg Value.u8 (UInt8.toNat_inj.mp (hword h))
    | _ => cases htype
  | u16 m =>
    cases w with
    | u16 n => exact congrArg Value.u16 (UInt16.toNat_inj.mp (hword h))
    | _ => cases htype
  | u32 m =>
    cases w with
    | u32 n => exact congrArg Value.u32 (UInt32.toNat_inj.mp (hword h))
    | _ => cases htype
  | u64 m =>
    cases w with
    | u64 n => exact congrArg Value.u64 (UInt64.toNat_inj.mp (hword h))
    | _ => cases htype
  | f64 x =>
    cases w with
    | f64 y => exact congrArg Value.f64 (f64_eq_of_print hv hw h)
    | _ => cases htype
  | timestamp t =>
    cases w with
    | timestamp u =>
      exact congrArg Value.timestamp (Instant.IsSettled.toMillis_eq_of_lineText hv hw (htext h))
    | _ => cases htype
  | addr a =>
    cases w with
    | addr b => exact congrArg Value.addr (Address.text_injective (htext h))
    | _ => cases htype
  | mac m =>
    cases w with
    | mac n => exact congrArg Value.mac (Mac.text_injective (htext h))
    | _ => cases htype
  | string s =>
    cases w with
    | string t => exact congrArg Value.string (String.toList_inj.mp (htext h))
    | _ => cases htype
  | blob bytes =>
    cases w with
    | blob bytes' => exact congrArg Value.blob (Text.hexBytes_injective (htext h))
    | _ => cases htype

end FlowTally.Value
