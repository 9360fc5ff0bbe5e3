import FlowTally.Proofs.Text.Lines
import Mathlib.Data.String.Basic

/-!
# The order of texts is the order of their bytes

Texts are compared character by character. The encoding of a character writes its number in digits
to the base 64, the leading byte also telling how many follow, so that a smaller character has a
smaller encoding. Comparing two texts is therefore comparing the bytes that encode them.
-/

namespace FlowTally.Text

/-- Bytes compare as the numbers they are made of. -/
theorem byte_lt_iff {m n : Nat} (hm : m < 256) (hn : n < 256) :
    UInt8.ofNat m < UInt8.ofNat n ↔ m < n := by
  rw [UInt8.lt_iff_toNat_lt, UInt8.toNat_ofNat_of_lt' hm, UInt8.toNat_ofNat_of_lt' hn]

/-- Bytes are equal if the numbers they are made of are. -/
theorem byte_eq_iff {m n : Nat} (hm : m < 256) (hn : n < 256) :
    UInt8.ofNat m = UInt8.ofNat n ↔ m = n := by
  rw [← UInt8.toNat_inj, UInt8.toNat_ofNat_of_lt' hm, UInt8.toNat_ofNat_of_lt' hn]

/-- The encoding of a smaller character is smaller, whatever follows. -/
theorem encodeChar_append_lt {c d : Char} (h : c < d) (front back : List UInt8) :
    String.utf8EncodeChar c ++ front < String.utf8EncodeChar d ++ back := by
  have hlt : c.val.toNat < d.val.toNat := UInt32.lt_iff_toNat_lt.mp h
  have hbound : d.val.toNat < 0x110000 := by
    rcases d.valid with hd | ⟨-, hd⟩
    · omega
    · omega
  have hsquare : ∀ n, n / 4096 = n / 64 / 64 := fun n => (Nat.div_div_eq_div_mul n 64 64).symm
  have hcube : ∀ n, n / 262144 = n / 64 / 64 / 64 := fun n => by
    rw [Nat.div_div_eq_div_mul, Nat.div_div_eq_div_mul]
  simp only [String.utf8EncodeChar, hsquare, hcube]
  generalize c.val.toNat = v at *
  generalize d.val.toNat = w at *
  -- Each of the two characters has an encoding of one to four bytes.
  split_ifs
  all_goals
    simp only [List.cons_append, List.nil_append, List.cons_lt_cons_iff]
    simp (disch := omega) only [byte_lt_iff, byte_eq_iff]
    omega

/-- The encodings of characters in a row are smaller if the characters are. -/
theorem encode_lt {cs ds : List Char} (h : cs < ds) :
    cs.flatMap String.utf8EncodeChar < ds.flatMap String.utf8EncodeChar := by
  induction cs generalizing ds with
  | nil =>
    obtain ⟨d, ds, rfl⟩ : ∃ d rest, ds = d :: rest := by
      cases h with
      | nil => exact ⟨_, _, rfl⟩
    obtain ⟨b, rest, hb⟩ := List.exists_cons_of_ne_nil (String.utf8EncodeChar_ne_nil (c := d))
    rw [List.flatMap_cons, hb]
    exact List.nil_lt_cons _ _
  | cons c cs ih =>
    cases h with
    | rel hlt => exact encodeChar_append_lt hlt _ _
    | cons hrest =>
      rw [List.flatMap_cons, List.flatMap_cons]
      exact List.append_left_lt (ih hrest)

/-- The bytes of a text are the encodings of its characters. -/
theorem toList_toUTF8 (s : String) :
    s.toUTF8.toList = s.toList.flatMap String.utf8EncodeChar := by
  have h : (String.ofList s.toList).toUTF8.toList = s.toList.flatMap String.utf8EncodeChar := by
    rw [String.toUTF8_eq_toByteArray, toList_eq_data]
    exact congrArg Array.toList List.data_toByteArray
  rwa [String.ofList_toList] at h

/-- A text is smaller than another exactly if its bytes are. -/
theorem lt_iff_bytes_lt (s t : String) : s < t ↔ s.toUTF8.toList < t.toUTF8.toList := by
  rw [toList_toUTF8, toList_toUTF8]
  constructor
  · exact fun h => encode_lt h
  · intro h
    rcases lt_trichotomy s t with hlt | rfl | hgt
    · exact hlt
    · exact absurd h (List.lt_irrefl _)
    · exact absurd (encode_lt hgt) (List.lt_asymm h)

end FlowTally.Text
