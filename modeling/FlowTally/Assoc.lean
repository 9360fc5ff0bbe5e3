/-!
# Ordered association lists

Record cells, JSON members and the groups of a table are kept as lists of pairs in
strictly ascending key order. Two such lists with the same entries are equal, so
the order in which entries arrived leaves no trace.
-/

namespace FlowTally.Assoc

variable {κ α : Type}

/-- The value stored under a key. -/
def lookup [DecidableEq κ] (key : κ) : List (κ × α) → Option α
  | [] => none
  | (k, v) :: rest => if k = key then some v else lookup key rest

/-- Stores a value under a key, in place of the value that was there. -/
def insert [DecidableEq κ] [LT κ] [DecidableLT κ] (key : κ) (value : α) :
    List (κ × α) → List (κ × α)
  | [] => [(key, value)]
  | (k, v) :: rest =>
    if k = key then (key, value) :: rest
    else if key < k then (key, value) :: (k, v) :: rest
    else (k, v) :: insert key value rest

/-- The keys of a list stand in strictly ascending order. -/
def Ascending [LT κ] (entries : List (κ × α)) : Prop :=
  entries.Pairwise fun a b => a.1 < b.1

/-- A stored value is found again. -/
@[simp] theorem lookup_insert_self [DecidableEq κ] [LT κ] [DecidableLT κ]
    (key : κ) (value : α) (entries : List (κ × α)) :
    lookup key (insert key value entries) = some value := by
  induction entries with
  | nil => simp [insert, lookup]
  | cons entry rest ih =>
    obtain ⟨k, v⟩ := entry
    by_cases hk : k = key
    · simp [insert, lookup, hk]
    · by_cases hlt : key < k
      · simp [insert, lookup, hk, hlt]
      · simp [insert, lookup, hk, hlt, ih]

/-- Storing a value changes no other key. -/
theorem lookup_insert_of_ne [DecidableEq κ] [LT κ] [DecidableLT κ]
    {key other : κ} (h : other ≠ key) (value : α) (entries : List (κ × α)) :
    lookup other (insert key value entries) = lookup other entries := by
  induction entries with
  | nil => simp [insert, lookup, h.symm]
  | cons entry rest ih =>
    obtain ⟨k, v⟩ := entry
    by_cases hk : k = key
    · subst hk
      simp [insert, lookup, h.symm]
    · by_cases hlt : key < k
      · simp [insert, lookup, hk, hlt, h.symm]
      · simp only [insert, if_neg hk, if_neg hlt, lookup, ih]

/-- The keys after storing a value are the old ones and the new one. -/
theorem mem_keys_insert [DecidableEq κ] [LT κ] [DecidableLT κ]
    (key : κ) (value : α) (entries : List (κ × α)) (x : κ × α)
    (h : x ∈ insert key value entries) : x = (key, value) ∨ x ∈ entries := by
  induction entries with
  | nil => exact .inl (by simpa [insert] using h)
  | cons entry rest ih =>
    obtain ⟨k, v⟩ := entry
    by_cases hk : k = key
    · simp only [insert, if_pos hk, List.mem_cons] at h ⊢
      rcases h with h | h
      · exact .inl h
      · exact .inr (.inr h)
    · by_cases hlt : key < k
      · simp only [insert, if_neg hk, if_pos hlt, List.mem_cons] at h ⊢
        exact h
      · simp only [insert, if_neg hk, if_neg hlt, List.mem_cons] at h ⊢
        rcases h with h | h
        · exact .inr (.inl h)
        · rcases ih h with h | h
          · exact .inl h
          · exact .inr (.inr h)

/-- Storing a value keeps the keys in order, for any order of the keys that is
transitive and total. -/
theorem Ascending.insert [DecidableEq κ] [LT κ] [DecidableLT κ]
    (trans : ∀ {a b c : κ}, a < b → b < c → a < c)
    (total : ∀ {a b : κ}, ¬a < b → b ≠ a → b < a)
    (key : κ) (value : α) {entries : List (κ × α)} (h : Ascending entries) :
    Ascending (insert key value entries) := by
  induction entries with
  | nil => simp [Assoc.insert, Ascending]
  | cons entry rest ih =>
    obtain ⟨k, v⟩ := entry
    have hrest : Ascending rest := (List.pairwise_cons.mp h).2
    have hhead := (List.pairwise_cons.mp h).1
    by_cases hk : k = key
    · subst hk
      simpa [Assoc.insert, Ascending] using h
    · by_cases hlt : key < k
      · simp only [Assoc.insert, if_neg hk, if_pos hlt]
        refine List.pairwise_cons.mpr ⟨?_, h⟩
        intro x hx
        rcases List.mem_cons.mp hx with rfl | hx
        · exact hlt
        · exact trans hlt (hhead x hx)
      · simp only [Assoc.insert, if_neg hk, if_neg hlt]
        refine List.pairwise_cons.mpr ⟨?_, ih hrest⟩
        intro x hx
        rcases mem_keys_insert key value rest x hx with rfl | hx
        · exact total hlt hk
        · exact hhead x hx

/-- What is found after a value is stored. -/
theorem lookup_insert [DecidableEq κ] [LT κ] [DecidableLT κ] (key other : κ) (value : α)
    (entries : List (κ × α)) :
    lookup other (insert key value entries) =
      if other = key then some value else lookup other entries := by
  split
  · next h => rw [h, lookup_insert_self]
  · next h => exact lookup_insert_of_ne h value entries

/-- What is found is stored. -/
theorem mem_of_lookup [DecidableEq κ] {key : κ} {value : α} {entries : List (κ × α)}
    (h : lookup key entries = some value) : (key, value) ∈ entries := by
  induction entries with
  | nil => simp [lookup] at h
  | cons entry rest ih =>
    obtain ⟨k, v⟩ := entry
    unfold lookup at h
    split at h
    · next hk =>
      obtain rfl := Option.some.inj h
      rw [hk]
      exact List.mem_cons_self
    · exact List.mem_cons_of_mem _ (ih h)

/-- In a list with ascending keys what is stored is found. -/
theorem Ascending.mem_iff [DecidableEq κ] [LT κ] (irrefl : ∀ a : κ, ¬a < a) {key : κ}
    {value : α} {entries : List (κ × α)} (h : Ascending entries) :
    (key, value) ∈ entries ↔ lookup key entries = some value := by
  refine ⟨fun hmem => ?_, mem_of_lookup⟩
  induction entries with
  | nil => exact absurd hmem List.not_mem_nil
  | cons entry rest ih =>
    obtain ⟨hhead, hrest⟩ := List.pairwise_cons.mp h
    rcases List.mem_cons.mp hmem with rfl | hmem
    · simp [lookup]
    · have hlt : entry.1 < key := hhead (key, value) hmem
      have hne : entry.1 ≠ key := fun he => irrefl key (he ▸ hlt)
      rw [lookup, if_neg hne]
      exact ih hrest hmem

/-- Changing the values changes what is found. -/
theorem lookup_map {β : Type} [DecidableEq κ] (f : α → β) (key : κ) (entries : List (κ × α)) :
    lookup key (entries.map fun e => (e.1, f e.2)) = (lookup key entries).map f := by
  induction entries with
  | nil => rfl
  | cons entry rest ih =>
    by_cases hk : entry.1 = key
    · simp [lookup, hk]
    · simp only [List.map_cons, lookup, if_neg hk, ih]

/-- Changing the values keeps the keys in order. -/
theorem Ascending.map {β : Type} [LT κ] (f : α → β) {entries : List (κ × α)}
    (h : Ascending entries) : Ascending (entries.map fun e => (e.1, f e.2)) :=
  List.pairwise_map.mpr h

/-- Keys that ascend are distinct. -/
theorem Ascending.nodup [LT κ] (irrefl : ∀ a : κ, ¬a < a) {entries : List (κ × α)}
    (h : Ascending entries) : (entries.map (·.1)).Nodup := by
  refine List.pairwise_map.mpr (h.imp fun {a b} hlt heq => ?_)
  rw [heq] at hlt
  exact irrefl b.1 hlt

/-- Lists with ascending keys in which the same is found are equal. -/
theorem Ascending.ext [DecidableEq κ] [LT κ] (irrefl : ∀ a : κ, ¬a < a)
    (trans : ∀ {a b c : κ}, a < b → b < c → a < c) {xs ys : List (κ × α)} (hxs : Ascending xs)
    (hys : Ascending ys) (h : ∀ key, lookup key xs = lookup key ys) : xs = ys := by
  induction xs generalizing ys with
  | nil =>
    cases ys with
    | nil => rfl
    | cons e rest => exact absurd (h e.1) (by simp [lookup])
  | cons d rest ih =>
    cases ys with
    | nil => exact absurd (h d.1) (by simp [lookup])
    | cons e rest' =>
      obtain ⟨hd, hrest⟩ := List.pairwise_cons.mp hxs
      obtain ⟨he, hrest'⟩ := List.pairwise_cons.mp hys
      -- Each first entry is found in the other list, so neither key precedes the other.
      have hde : (d.1, d.2) ∈ e :: rest' :=
        mem_of_lookup ((h d.1).symm.trans (by simp [lookup]))
      have hed : (e.1, e.2) ∈ d :: rest :=
        mem_of_lookup ((h e.1).trans (by simp [lookup]))
      have hsame : d = e := by
        rcases List.mem_cons.mp hde with hde | hde
        · exact hde
        · rcases List.mem_cons.mp hed with hed | hed
          · exact hed.symm
          · exact absurd (trans (hd _ hed) (he _ hde)) (irrefl d.1)
      subst hsame
      have htail : ∀ key, lookup key rest = lookup key rest' := by
        intro key
        have hkey := h key
        unfold lookup at hkey
        split at hkey
        · next heq =>
          -- The first key stands in neither rest.
          have hnone : ∀ zs : List (κ × α), (∀ z ∈ zs, d.1 < z.1) → lookup key zs = none := by
            intro zs hzs
            cases hz : lookup key zs with
            | none => rfl
            | some v => exact absurd (hzs _ (mem_of_lookup hz)) (heq ▸ irrefl d.1)
          rw [hnone rest hd, hnone rest' he]
        · exact hkey
      rw [ih hrest hrest' htail]

/-- A value whose key follows all others is stored behind them. -/
theorem insert_of_forall_lt [DecidableEq κ] [LT κ] [DecidableLT κ] (irrefl : ∀ a : κ, ¬a < a)
    (trans : ∀ {a b c : κ}, a < b → b < c → a < c) {key : κ} {value : α}
    {entries : List (κ × α)} (h : ∀ e ∈ entries, e.1 < key) :
    insert key value entries = entries ++ [(key, value)] := by
  induction entries with
  | nil => rfl
  | cons entry rest ih =>
    obtain ⟨k, v⟩ := entry
    have hlt : k < key := h (k, v) List.mem_cons_self
    have hne : k ≠ key := fun he => irrefl key (he ▸ hlt)
    have hnot : ¬key < k := fun hgt => irrefl k (trans hlt hgt)
    rw [insert, if_neg hne, if_neg hnot, ih fun e he => h e (List.mem_cons_of_mem _ he)]
    rfl

/-- Values that are stored in ascending order of their keys stand in that order. -/
theorem Ascending.foldl_insert [DecidableEq κ] [LT κ] [DecidableLT κ] (irrefl : ∀ a : κ, ¬a < a)
    (trans : ∀ {a b c : κ}, a < b → b < c → a < c) {front entries : List (κ × α)}
    (h : Ascending (front ++ entries)) :
    entries.foldl (fun acc e => Assoc.insert e.1 e.2 acc) front = front ++ entries := by
  induction entries generalizing front with
  | nil => rw [List.foldl_nil, List.append_nil]
  | cons e rest ih =>
    have hbefore : ∀ d ∈ front, d.1 < e.1 := fun d hd =>
      (List.pairwise_append.mp h).2.2 d hd e List.mem_cons_self
    have hsplit : front ++ e :: rest = front ++ [(e.1, e.2)] ++ rest := by
      rw [List.append_assoc, List.singleton_append]
    rw [hsplit] at h ⊢
    rw [List.foldl_cons, insert_of_forall_lt irrefl trans hbefore, ih h]

/-- Storing values in turn keeps the keys in order. -/
theorem Ascending.insertAll [DecidableEq κ] [LT κ] [DecidableLT κ]
    (trans : ∀ {a b c : κ}, a < b → b < c → a < c)
    (total : ∀ {a b : κ}, ¬a < b → b ≠ a → b < a) (entries : List (κ × α))
    {front : List (κ × α)} (h : Ascending front) :
    Ascending (entries.foldl (fun acc e => Assoc.insert e.1 e.2 acc) front) := by
  induction entries generalizing front with
  | nil => exact h
  | cons e rest ih => exact ih (h.insert trans total e.1 e.2)

/-- After values are stored in turn, what is there was there before or was stored. -/
theorem mem_of_mem_insertAll [DecidableEq κ] [LT κ] [DecidableLT κ] {entries front : List (κ × α)}
    {x : κ × α} (h : x ∈ entries.foldl (fun acc e => insert e.1 e.2 acc) front) :
    x ∈ front ∨ x ∈ entries := by
  induction entries generalizing front with
  | nil => exact .inl h
  | cons e rest ih =>
    rcases ih h with h | h
    · rcases mem_keys_insert e.1 e.2 front x h with rfl | h
      · exact .inr List.mem_cons_self
      · exact .inl h
    · exact .inr (List.mem_cons_of_mem e h)

/-- After values are stored in turn, something is found under each key that was there before or
was stored. -/
theorem exists_lookup_insertAll [DecidableEq κ] [LT κ] [DecidableLT κ]
    {entries front : List (κ × α)} {key : κ}
    (h : (∃ v, lookup key front = some v) ∨ ∃ e ∈ entries, e.1 = key) :
    ∃ v, lookup key (entries.foldl (fun acc e => insert e.1 e.2 acc) front) = some v := by
  induction entries generalizing front with
  | nil => exact h.resolve_right fun ⟨_, he, _⟩ => absurd he List.not_mem_nil
  | cons e rest ih =>
    refine ih ?_
    rw [lookup_insert]
    by_cases hkey : key = e.1
    · exact .inl ⟨e.2, if_pos hkey⟩
    · rcases h with h | ⟨d, hd, rfl⟩
      · exact .inl (by rwa [if_neg hkey])
      · exact .inr ⟨d, (List.mem_cons.mp hd).resolve_left fun he => hkey (he ▸ rfl), rfl⟩

end FlowTally.Assoc
