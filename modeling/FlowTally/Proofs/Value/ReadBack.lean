import FlowTally.Proofs.Address.ReadBack
import FlowTally.Proofs.Json.ReadBack
import FlowTally.Proofs.Time.ReadBack
import FlowTally.Record.Line

/-!
# Values read back

A word is written as a number and everything else that is no floating-point number as a text.
Reading the JSON value with the type of the value gives the value back, if a point in time has
nothing below a millisecond and a year of four digits. Of a point in time it gives the settled
form.
-/

namespace FlowTally

/-- The digits of a byte string read back. -/
theorem Text.readHex_hexBytes (bytes : List UInt8) :
    readHex (String.ofList (hexBytes bytes)) = .ok bytes := by
  have hsmall : ∀ n < 16, (hexDigit n).utf8Size = 1 := by decide
  have hbyte : ∀ c ∈ hexBytes bytes, c.utf8Size = 1 := by
    intro c hc
    obtain ⟨b, -, hc⟩ := List.mem_flatMap.mp hc
    obtain ⟨n, hn, rfl⟩ := mem_hexPair hc
    exact hsmall n hn
  have heven : (hexBytes bytes).length % 2 = 0 := by
    have hlength : (hexBytes bytes).length = 2 * bytes.length := by
      induction bytes with
      | nil => rfl
      | cons b bytes ih =>
        have hrest := ih fun c hc => hbyte c (List.mem_append_right _ hc)
        rw [hexBytes, List.flatMap_cons, List.length_append, ← hexBytes, hrest, List.length_cons]
        simp only [hexPair, List.length_cons, List.length_nil]
        omega
    omega
  rw [readHex, utf8ByteSize_ofList, byteSize_eq_length hbyte, if_neg (by omega),
    String.toList_ofList, readHexPairs_hexBytes]

/-- A link-layer address reads back from its text. -/
theorem Mac.read_text (m : Mac) : read (String.ofList m.text) = .ok m := by
  have hbytes : ofBytes? m.bytes = some m := by rw [ofBytes?, dif_pos m.length_eq]
  rw [read, String.toList_ofList, readPairs_text, Option.bind_some, hbytes]

namespace Value

/-- Whether the JSON value of a value tells it: the value is no floating-point number, and a
point in time is a whole number of milliseconds in a year of four digits. -/
def IsExact : Value → Prop
  | .f64 _ => False
  | .timestamp t => t.nano % 1000000 = 0 ∧ 0 ≤ (Calendar.Date.ofDays t.day).year ∧
      (Calendar.Date.ofDays t.day).year ≤ 9999
  | _ => True

instance : DecidablePred IsExact := fun v =>
  match v with
  | .f64 _ => isFalse id
  | .timestamp t => inferInstanceAs (Decidable (t.nano % 1000000 = 0 ∧ _ ∧ _))
  | .u8 _ | .u16 _ | .u32 _ | .u64 _ | .addr _ | .mac _ | .string _ | .blob _ => isTrue trivial

/-- The JSON value of a value that is no floating-point number is a text or a word. -/
theorem isScalar_of_type_ne {v : Value} (h : v.type ≠ .f64) : v.toJson.IsScalar := by
  have hword : ∀ n : Nat, n < UInt64.size → (Json.num (.integer n)).IsScalar :=
    fun n hn => ⟨by omega, by omega⟩
  cases v with
  | u8 n => exact hword _ (n.toNat_lt.trans (by decide))
  | u16 n => exact hword _ (n.toNat_lt.trans (by decide))
  | u32 n => exact hword _ (n.toNat_lt.trans (by decide))
  | u64 n => exact hword _ n.toNat_lt
  | f64 x => exact absurd rfl h
  | _ => trivial

/-- The JSON value of an exact value is a text or a word. -/
theorem isScalar_toJson {v : Value} (h : v.IsExact) : v.toJson.IsScalar := by
  refine isScalar_of_type_ne fun htype => ?_
  cases v with
  | f64 x => exact h
  | _ => cases htype

/-- A word reads back. -/
theorem unsigned_natCast {n : Nat} (h : n < UInt64.size) :
    unsigned (.num (.integer n)) = .ok (UInt64.ofNat n) := by
  have hsize : UInt64.size = 0x10000000000000000 := rfl
  have hrange : 0 ≤ (n : Int) ∧ (n : Int) < 0x10000000000000000 := by omega
  have hword : (Json.Number.integer n).toUInt64? = some (UInt64.ofNat n) := by
    rw [Json.Number.toUInt64?, if_pos hrange, Int.toNat_natCast]
  rw [unsigned, hword]

/-- A word reads back below every bound that it keeps. -/
theorem unsignedBelow_natCast {bound n : Nat} (hn : n < bound) (hbound : bound ≤ UInt64.size) :
    unsignedBelow bound (.num (.integer n)) = .ok (UInt64.ofNat n) := by
  have hword : n < UInt64.size := hn.trans_le hbound
  have hbelow : (UInt64.ofNat n).toNat < bound := by
    rwa [UInt64.toNat_ofNat_of_lt' hword]
  rw [unsignedBelow, unsigned_natCast hword]
  exact if_pos hbelow

/-- A value with the settled form of its point in time. -/
def settled : Value → Value
  | .timestamp t => .timestamp t.settled
  | v => v

/-- The settled form of a value is of its type. -/
@[simp]
theorem type_settled (v : Value) : v.settled.type = v.type := by
  cases v <;> rfl

/-- A value is its settled form unless it is a point in time that is not settled. -/
theorem settled_eq_self_iff {v : Value} :
    v.settled = v ↔ ∀ t, v = .timestamp t → t.IsSettled := by
  constructor
  · rintro h t rfl
    exact Instant.settled_eq_self_iff.mp (Value.timestamp.inj h)
  · intro h
    cases v with
    | timestamp t => exact congrArg timestamp (Instant.settled_eq_self_iff.mpr (h t rfl))
    | _ => rfl

/-- The settled form of an exact value is the value of its type that its JSON value holds. -/
theorem ofJson_toJson {v : Value} (h : v.IsExact) : ofJson v.type v.toJson = .ok v.settled := by
  cases v with
  | u8 n =>
    have hread := unsignedBelow_natCast n.toNat_lt (show UInt8.size ≤ UInt64.size by decide)
    have hword : (UInt64.ofNat n.toNat).toUInt8 = n := by simp
    rw [type, toJson, ofJson, hread]
    exact congrArg (fun m => Except.ok (u8 m)) hword
  | u16 n =>
    have hread := unsignedBelow_natCast n.toNat_lt (show UInt16.size ≤ UInt64.size by decide)
    have hword : (UInt64.ofNat n.toNat).toUInt16 = n := by simp
    rw [type, toJson, ofJson, hread]
    exact congrArg (fun m => Except.ok (u16 m)) hword
  | u32 n =>
    have hread := unsignedBelow_natCast n.toNat_lt (show UInt32.size ≤ UInt64.size by decide)
    have hword : (UInt64.ofNat n.toNat).toUInt32 = n := by simp
    rw [type, toJson, ofJson, hread]
    exact congrArg (fun m => Except.ok (u32 m)) hword
  | u64 n =>
    rw [type, toJson, ofJson, unsigned_natCast n.toNat_lt]
    exact congrArg (fun m => Except.ok (u64 m)) UInt64.ofNat_toNat
  | f64 x => exact h.elim
  | timestamp t =>
    simp only [ofJson, toJson, type, instantOf, Instant.read_lineText h.1 h.2]
    rfl
  | addr a =>
    simp only [ofJson, toJson, type, settled, tableText, textOf, bind, Except.bind, Address.read?_text]
  | mac m =>
    simp only [ofJson, toJson, type, settled, tableText, textOf, bind, Except.bind, Mac.read_text]
  | string s =>
    simp only [ofJson, toJson, type, settled, tableText, textOf, bind, Except.bind, String.ofList_toList]
  | blob bytes =>
    simp only [ofJson, toJson, type, settled, tableText, textOf, bind, Except.bind, Text.readHex_hexBytes]

end Value

end FlowTally
