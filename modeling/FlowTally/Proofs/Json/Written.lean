import FlowTally.Proofs.Json.ReadBack
import Mathlib.Data.List.Induction

/-!
# The members of an object as they are written

An object is written as a list of members in any order, in which a name may be repeated. The object
that is read has each name once, in ascending order, and keeps what the last member of that name
says. So what is found in the object under a name is told by the written members.
-/

namespace FlowTally

/-- After values are stored in turn, a key finds what was stored under it last, or what it found
before. -/
theorem Assoc.lookup_insertAll {κ α : Type} [DecidableEq κ] [LT κ] [DecidableLT κ] (key : κ)
    (entries front : List (κ × α)) :
    lookup key (entries.foldl (fun acc e => insert e.1 e.2 acc) front) =
      (lookup key entries.reverse).or (lookup key front) := by
  induction entries using List.reverseRecOn with
  | nil => rfl
  | append_singleton entries e ih =>
    rw [List.foldl_append, List.reverse_append]
    simp only [List.foldl_cons, List.foldl_nil, List.reverse_cons, List.reverse_nil, List.nil_append,
      List.singleton_append, lookup_insert, lookup, ih]
    by_cases hkey : key = e.1
    · simp [hkey]
    · simp [hkey, Ne.symm hkey]

namespace Json

/-- The members that are written in an object at the front of a text. -/
def writtenFrom? (fuel depth : Nat) : List Char → Option (List (String × Json))
  | '\x7b' :: cs =>
    if (skipGap cs).head? = some '\x7d' then some []
    else (members? fuel depth (skipGap cs)).map (·.1)
  | _ => none

/-- The members of the object that a text is, in the order in which they are written. -/
def writtenMembers? (text : String) : Option (List (String × Json)) :=
  writtenFrom? (2 * text.toList.length + 1) (maxDepth - 1) (skipGap text.toList)

/-- What the last member of a name says. -/
def lastNamed? (name : String) (members : List (String × Json)) : Option Json :=
  Assoc.lookup name members.reverse

/-- An object that is read is made of the members that are written. -/
theorem exists_writtenFrom? {fuel depth : Nat} {cs rest : List Char} {sorted : List (String × Json)}
    (h : value? (fuel + 1) (depth + 1) cs = some (.obj sorted, rest)) :
    ∃ ms, writtenFrom? fuel depth cs = some ms ∧ .obj sorted = ofMembers ms := by
  unfold value? at h
  split at h
  -- A value of another kind is no object.
  case h_5 =>
    dsimp only at h
    split at h
    · cases h
    · obtain ⟨_, -, heq⟩ := Option.map_eq_some_iff.mp h
      cases heq
  case h_6 cs =>
    dsimp only at h
    rw [writtenFrom?]
    generalize skipGap cs = behind at h ⊢
    split at h
    · obtain rfl := Json.obj.inj (Prod.mk.inj (Option.some.inj h)).1
      exact ⟨[], by rw [List.head?_cons, if_pos rfl], rfl⟩
    · next hopen =>
      obtain ⟨⟨ms, more⟩, hms, heq⟩ := Option.map_eq_some_iff.mp h
      have hhead : behind.head? ≠ some '\x7d' := by
        intro hclose
        obtain ⟨rest, hrest⟩ := List.head?_eq_some_iff.mp hclose
        exact hopen rest hrest
      exact ⟨ms, by rw [if_neg hhead, hms]; rfl, (Prod.mk.inj heq).1.symm⟩
  all_goals simp at h

/-- A text that is an object has written members, and the object finds under each name what the last
of them with that name says. -/
theorem exists_writtenMembers? {text : String} {sorted : List (String × Json)}
    (h : read? text = some (.obj sorted)) :
    ∃ ms, writtenMembers? text = some ms ∧ Assoc.Ascending sorted ∧
      ∀ name, Assoc.lookup name sorted = lastNamed? name ms := by
  unfold read? at h
  dsimp only at h
  split at h
  · next value rest hvalue =>
    split at h
    · obtain rfl := Option.some.inj h
      obtain ⟨ms, hms, heq⟩ := exists_writtenFrom? hvalue
      obtain ⟨sorted', hsorted, hascending, -⟩ := exists_ofMembers ms
      obtain rfl : sorted = sorted' := Json.obj.inj (heq.trans hsorted)
      refine ⟨ms, hms, hascending, fun name => ?_⟩
      rw [Json.obj.inj heq, Assoc.lookup_insertAll, Assoc.lookup, Option.or_none, lastNamed?]
    · cases h
  · cases h

/-- The written members of an object are what its members read back as, in their order. -/
theorem writtenMembers?_compact {r : Json → Json} {members : List (String × Json)}
    (h : ∀ m ∈ members, ReadsAs m.2 (r m.2)) :
    writtenMembers? (compact (.obj members)) = some (members.map fun m => (m.1, r m.2)) := by
  rw [writtenMembers?, compact, String.toList_ofList]
  cases members with
  | nil =>
    rw [print]
    rfl
  | cons m more =>
    obtain ⟨cs, htext, hbody⟩ := exists_body h
    have hquote : ('"' :: cs).head? ≠ some '\x7d' := by
      rw [List.head?_cons]
      decide
    have hfuel : (print (.obj (m :: more))).length ≤
        2 * (print (.obj (m :: more))).length + 1 := by omega
    have hmembers := hbody (maxDepth - 1) hfuel
    rw [htext] at hmembers ⊢
    rw [skipGap_cons (by decide), writtenFrom?, skipGap_cons (by decide), if_neg hquote, hmembers]
    rfl

end Json

end FlowTally
