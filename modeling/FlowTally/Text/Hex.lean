/-!
# Hexadecimal bytes

Bytes are written as two lower-case digits each. A byte is read from a piece of
two characters: two digits of either case, or a plus sign and one digit.
-/

namespace FlowTally.Text

/-- The lower-case digit of a number below sixteen. -/
def hexDigit (n : Nat) : Char :=
  if n < 10 then Char.ofNat (48 + n) else Char.ofNat (87 + n)

/-- The value of one hexadecimal digit of either case. -/
def hexValue? (c : Char) : Option Nat :=
  let n := c.toNat
  if 48 ≤ n ∧ n ≤ 57 then some (n - 48)
  else if 97 ≤ n ∧ n ≤ 102 then some (n - 87)
  else if 65 ≤ n ∧ n ≤ 70 then some (n - 55)
  else none

/-- The two digits of a byte, high half first. -/
def hexPair (b : UInt8) : List Char :=
  [hexDigit (b.toNat / 16), hexDigit (b.toNat % 16)]

/-- The digits of a byte string. -/
def hexBytes (bytes : List UInt8) : List Char :=
  bytes.flatMap hexPair

/-- The byte that a piece of two characters spells. A plus sign may stand in
place of the high digit and adds nothing. -/
def hexPair? (high low : Char) : Option UInt8 := do
  let h ← if high = '+' then some 0 else hexValue? high
  let l ← hexValue? low
  some (UInt8.ofNat (16 * h + l))

/-- Why a text is not a byte string. Offsets count UTF-8 bytes. -/
inductive HexError where
  /-- The text does not split into pieces of two bytes. -/
  | oddLength
  /-- The piece at this offset spells no byte. -/
  | badPair (offset : Nat)
deriving DecidableEq, Repr

/-- The wording of a byte string error. -/
def HexError.message : HexError → String
  | .oddLength => "odd-length hex string"
  | .badPair offset => s!"invalid hex at offset {offset}"

/-- Reads pieces from an even offset on. All characters before a bad piece are
single bytes, so the offset of a piece is its index. -/
def readHexPairs (offset : Nat) : List Char → Except HexError (List UInt8)
  | [] => .ok []
  | [_] => .error (.badPair offset)
  | high :: low :: rest =>
    match hexPair? high low with
    | none => .error (.badPair offset)
    | some b =>
      match readHexPairs (offset + 2) rest with
      | .ok bytes => .ok (b :: bytes)
      | .error e => .error e

/-- Reads a byte string. -/
def readHex (s : String) : Except HexError (List UInt8) :=
  if s.utf8ByteSize % 2 ≠ 0 then .error .oddLength else readHexPairs 0 s.toList

/-- Each digit reads back as its own value. -/
theorem hexValue?_hexDigit : ∀ n < 16, hexValue? (hexDigit n) = some n := by decide

/-- No digit is a plus sign. -/
theorem hexDigit_ne_plus : ∀ n < 16, hexDigit n ≠ '+' := by decide

/-- The two digits of a byte read back as that byte. -/
theorem hexPair?_hexPair (b : UInt8) :
    hexPair? (hexDigit (b.toNat / 16)) (hexDigit (b.toNat % 16)) = some b := by
  have hb : b.toNat < 256 := b.toNat_lt
  have high := hexValue?_hexDigit (b.toNat / 16) (by omega)
  have low := hexValue?_hexDigit (b.toNat % 16) (by omega)
  have plus := hexDigit_ne_plus (b.toNat / 16) (by omega)
  have sum : 16 * (b.toNat / 16) + b.toNat % 16 = b.toNat := by omega
  simp only [hexPair?, if_neg plus, high, low, bind, Option.bind, sum, UInt8.ofNat_toNat]

/-- The written form of a byte string reads back, from any offset. -/
theorem readHexPairs_hexBytes (offset : Nat) (bytes : List UInt8) :
    readHexPairs offset (hexBytes bytes) = .ok bytes := by
  induction bytes generalizing offset with
  | nil => rfl
  | cons b bytes ih =>
    have step : hexBytes (b :: bytes) =
        hexDigit (b.toNat / 16) :: hexDigit (b.toNat % 16) :: hexBytes bytes := rfl
    rw [step, readHexPairs, hexPair?_hexPair]
    simp [ih]

/-- Two byte strings with the same digits are equal. -/
theorem hexBytes_injective {bytes bytes' : List UInt8} (h : hexBytes bytes = hexBytes bytes') :
    bytes = bytes' := by
  have hread := readHexPairs_hexBytes 0 bytes
  rw [h, readHexPairs_hexBytes] at hread
  exact (Except.ok.inj hread).symm

/-- The digits of a byte are among the 16 lower-case ones. -/
theorem mem_hexPair {b : UInt8} {c : Char} (h : c ∈ hexPair b) : ∃ n < 16, c = hexDigit n := by
  have hb : b.toNat < 256 := b.toNat_lt
  rcases List.mem_cons.mp h with rfl | h
  · exact ⟨b.toNat / 16, by omega, rfl⟩
  · exact ⟨b.toNat % 16, by omega, List.mem_singleton.mp h⟩

end FlowTally.Text
