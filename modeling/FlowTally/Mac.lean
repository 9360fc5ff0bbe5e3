import FlowTally.Text.Hex

/-!
# Link-layer addresses

Six bytes, written as pairs of hexadecimal digits with colons between them. When
read, a hyphen may stand for each colon.
-/

namespace FlowTally

/-- A link-layer address. -/
structure Mac where
  /-- The bytes, the most significant first. -/
  bytes : List UInt8
  /-- There are six of them. -/
  length_eq : bytes.length = 6
deriving DecidableEq, Repr

/-- The text is not a link-layer address. -/
structure InvalidMac where
  /-- The text that was read. -/
  text : String
deriving DecidableEq, Repr

/-- The wording of the error. -/
def InvalidMac.message (e : InvalidMac) : String := s!"invalid MAC address: {e.text}"

namespace Mac

/-- The address of zeros. -/
def zero : Mac := ⟨[0, 0, 0, 0, 0, 0], rfl⟩

/-- The address of a byte string of the right length. -/
def ofBytes? (bytes : List UInt8) : Option Mac :=
  if h : bytes.length = 6 then some ⟨bytes, h⟩ else none

/-- The written form, with colons. -/
def text (m : Mac) : List Char :=
  match m.bytes with
  | [] => []
  | first :: rest => Text.hexPair first ++ rest.flatMap fun b => ':' :: Text.hexPair b

/-- Reads pairs with a separator between each two of them. -/
def readPairs : List Char → Option (List UInt8)
  | [high, low] => (Text.hexPair? high low).map ([·])
  | high :: low :: sep :: rest =>
    if sep = ':' ∨ sep = '-' then do
      let b ← Text.hexPair? high low
      let bytes ← readPairs rest
      some (b :: bytes)
    else none
  | _ => none

/-- Reads a written address. -/
def read (s : String) : Except InvalidMac Mac :=
  match (readPairs s.toList).bind ofBytes? with
  | some m => .ok m
  | none => .error ⟨s⟩

/-- Pairs of digits with colons between them read back. -/
theorem readPairs_hexPairs (first : UInt8) (rest : List UInt8) :
    readPairs (Text.hexPair first ++ rest.flatMap fun b => ':' :: Text.hexPair b) =
      some (first :: rest) := by
  induction rest generalizing first with
  | nil =>
    simp only [Text.hexPair, List.flatMap_nil, List.append_nil, readPairs, Text.hexPair?_hexPair,
      Option.map_some]
  | cons next rest ih =>
    have hnext := ih next
    simp only [Text.hexPair, List.flatMap_cons, List.cons_append, List.nil_append] at hnext ⊢
    simp only [readPairs, true_or, if_true, Text.hexPair?_hexPair, hnext, Option.bind_eq_bind,
      Option.bind_some]

/-- The text of an address reads back as its bytes. -/
theorem readPairs_text (m : Mac) : readPairs m.text = some m.bytes := by
  have hlength := m.length_eq
  unfold text
  cases hbytes : m.bytes with
  | nil => simp [hbytes] at hlength
  | cons first rest => exact readPairs_hexPairs first rest

/-- Two addresses with the same text are equal. -/
theorem text_injective {m n : Mac} (h : m.text = n.text) : m = n := by
  have hread := readPairs_text m
  rw [h, readPairs_text] at hread
  cases m
  cases n
  cases Option.some.inj hread
  rfl

/-- Which characters the text of an address is made of. -/
theorem mem_text {m : Mac} {c : Char} (h : c ∈ m.text) :
    c = ':' ∨ ∃ n < 16, c = Text.hexDigit n := by
  unfold text at h
  split at h
  · exact absurd h List.not_mem_nil
  · rcases List.mem_append.mp h with h | h
    · exact .inr (Text.mem_hexPair h)
    · obtain ⟨b, -, h⟩ := List.mem_flatMap.mp h
      rcases List.mem_cons.mp h with rfl | h
      · exact .inl rfl
      · exact .inr (Text.mem_hexPair h)

end Mac

end FlowTally
