import FlowTally.Aggregator.Derived
import FlowTally.Proofs.Layout.Columns

/-!
# What filling in derived values touches

Filling in the derived values of a group writes to the places of derived fields among
its merged values and to nothing else, and a value that is written has the type of its
field.
-/

namespace FlowTally.Derived

/-- A computed value has the type of its field. -/
theorem type_of_compute {f : FieldId} {inputs : List (Option Value)} {v : Value}
    (h : compute f inputs = some v) : f.type? = some v.type := by
  have hduration : FieldId.duration.type? = some .u64 := by decide
  have hrates : ∀ g ∈ [FieldId.bitRate, FieldId.packetRate, FieldId.packetSize],
      g.type? = some .f64 := by decide
  unfold compute at h
  split at h
  · split at h
    · next hf =>
      obtain rfl := Option.some.inj h
      rw [hf, hduration]
      rfl
    · have hmem : f ∈ [FieldId.bitRate, FieldId.packetRate, FieldId.packetSize] := by
        repeat' split at h
        all_goals simp_all
      rw [hrates f hmem]
      repeat' split at h
      all_goals cases h
      all_goals rfl
  · cases h

/-- Filling in one field leaves the group as it is or puts a value of the type of the field
in its place among the merged values. -/
theorem fillField_cases (l : Layout) (t : Tally) (f : FieldId) :
    fillField l t f = t ∨ ∃ i v, l.locate f = some (.value, i) ∧ f.type? = some v.type ∧
      fillField l t f = t.setValue i v := by
  unfold fillField
  split
  · next i places hlocate _ =>
    split
    · next v hv => exact .inr ⟨i, v, hlocate, type_of_compute hv, rfl⟩
    · exact .inl rfl
  · exact .inl rfl

/-- What filling in one field of a group keeps and each single field does keep. -/
theorem fill_induction {l : Layout} {t : Tally} (P : Tally → Prop) (h : P t)
    (step : ∀ u f i v, P u → f ∈ FieldId.derived → l.locate f = some (.value, i) →
      f.type? = some v.type → P (u.setValue i v)) : P (fill l t) := by
  have hfields : ∀ fs : List FieldId, (∀ f ∈ fs, f ∈ FieldId.derived) →
      ∀ u, P u → P (fs.foldl (fillField l) u) := by
    intro fs
    induction fs with
    | nil => exact fun _ u hu => hu
    | cons f rest ih =>
      intro hfs u hu
      refine ih (fun g hg => hfs g (List.mem_cons_of_mem f hg)) _ ?_
      rcases fillField_cases l u f with hsame | ⟨i, v, hlocate, htype, hset⟩
      · rwa [hsame]
      · rw [hset]
        exact step u f i v hu (hfs f List.mem_cons_self) hlocate htype
  exact hfields FieldId.derived (fun _ hf => hf) t h

/-- Filling in derived values changes no key value. -/
@[simp] theorem keys_fill (l : Layout) (t : Tally) : (fill l t).keys = t.keys :=
  fill_induction (fun u => u.keys = t.keys) rfl fun _ _ _ _ hu _ _ _ => hu

/-- Filling in derived values adds and removes no merged value. -/
@[simp] theorem length_values_fill (l : Layout) (t : Tally) :
    (fill l t).values.length = t.values.length :=
  fill_induction (fun u => u.values.length = t.values.length) rfl fun _ _ _ _ hu _ _ _ => by
    rw [Tally.setValue, List.length_set, hu]

/-- Filling in derived values changes no merged value but those of derived fields. -/
theorem values_fill_of_not_derived {l : Layout} {i : Nat} (t : Tally)
    (h : ∀ c, l.value[i]? = some c → c.field ∉ FieldId.derived) :
    (fill l t).values[i]? = t.values[i]? := by
  refine fill_induction (fun u => u.values[i]? = t.values[i]?) rfl ?_
  intro u f j v hu hf hlocate _
  have hne : j ≠ i := by
    rintro rfl
    obtain ⟨c, hc, rfl⟩ := Layout.value_of_locate hlocate
    exact h c hc hf
  rw [Tally.setValue, List.getElem?_set_ne hne, hu]

/-- Two groups agree in everything but the merged values of some fields. -/
structure AgreeBut (l : Layout) (pending : List FieldId) (t u : Tally) : Prop where
  /-- They have the same key values. -/
  keys_eq : t.keys = u.keys
  /-- They have as many merged values. -/
  length_eq : t.values.length = u.values.length
  /-- They have the same merged values of the other fields. -/
  values_eq : ∀ i : Nat, (∀ c : Column, l.value[i]? = some c → c.field ∉ pending) →
    t.values[i]? = u.values[i]?

section

variable {l : Layout} {pending : List FieldId} {t u : Tally}

/-- Groups that agree in a field have the same value at its place. -/
theorem AgreeBut.at_eq (h : AgreeBut l pending t u) {f : FieldId} {place : Part × Nat}
    (hf : f ∉ pending) (hlocate : l.locate f = some place) : t.at? place = u.at? place := by
  obtain ⟨part, i⟩ := place
  cases part with
  | key => simp only [Tally.at?, h.keys_eq]
  | value =>
    obtain ⟨c, hc, rfl⟩ := Layout.value_of_locate hlocate
    have hvalue : t.values[i]? = u.values[i]? := by
      refine h.values_eq i fun d hd => ?_
      obtain rfl := Option.some.inj (hc.symm.trans hd)
      exact hf
    simp only [Tally.at?, hvalue]

/-- Groups that agree in some fields have the same values at their places. -/
theorem AgreeBut.map_at_eq (h : AgreeBut l pending t u) {fs : List FieldId}
    (hfs : ∀ f ∈ fs, f ∉ pending) {places : List (Part × Nat)}
    (hplaces : inputPlaces l fs = some places) : places.map t.at? = places.map u.at? := by
  induction fs generalizing places with
  | nil =>
    obtain rfl := Option.some.inj hplaces
    rfl
  | cons f rest ih =>
    unfold inputPlaces at hplaces
    split at hplaces
    · next place tail hplace htail =>
      obtain rfl := Option.some.inj hplaces
      rw [List.map_cons, List.map_cons, h.at_eq (hfs f List.mem_cons_self) hplace,
        ih (fun g hg => hfs g (List.mem_cons_of_mem f hg)) htail]
    · cases hplaces

/-- Fields with columns have places. -/
theorem exists_inputPlaces {fs : List FieldId} (hfs : ∀ f ∈ fs, f ∈ l.fields) :
    ∃ places, inputPlaces l fs = some places ∧ places.length = fs.length := by
  induction fs with
  | nil => exact ⟨[], rfl, rfl⟩
  | cons f rest ih =>
    obtain ⟨place, hplace⟩ := Layout.exists_locate (hfs f List.mem_cons_self)
    obtain ⟨places, hplaces, hlength⟩ := ih fun g hg => hfs g (List.mem_cons_of_mem f hg)
    refine ⟨place :: places, ?_, by rw [List.length_cons, List.length_cons, hlength]⟩
    simp only [inputPlaces, hplace, hplaces]

/-- A derived field has a value, whatever its inputs are. -/
theorem exists_compute {f : FieldId} (hf : f ∈ FieldId.derived) {inputs : List (Option Value)}
    (hlength : inputs.length = f.inputs.length) : ∃ v, compute f inputs = some v := by
  have htwo : ∀ g ∈ FieldId.derived, g.inputs.length = 2 := by decide
  rw [htwo f hf] at hlength
  obtain ⟨a, b, rfl⟩ := List.length_eq_two.mp hlength
  simp only [FieldId.derived, List.mem_cons, List.not_mem_nil, or_false] at hf
  rcases hf with rfl | rfl | rfl | rfl <;> exact ⟨_, rfl⟩

/-- Filling in a field makes groups agree in it if they agree in its inputs. -/
theorem AgreeBut.fillField (hl : l.Valid) {f : FieldId} {rest : List FieldId}
    (h : AgreeBut l (f :: rest) t u) (hf : f ∈ FieldId.derived)
    (hinputs : ∀ g ∈ f.inputs, g ∉ f :: rest) :
    AgreeBut l rest (fillField l t f) (fillField l u f) := by
  -- Away from the place of the field the groups agreed before.
  have hbefore : ∀ j : Nat, l.locate f ≠ some (.value, j) →
      (∀ c : Column, l.value[j]? = some c → c.field ∉ rest) → t.values[j]? = u.values[j]? := by
    intro j hj hrest
    refine h.values_eq j fun c hc hmem => ?_
    rcases List.mem_cons.mp hmem with heq | hmem
    · exact hj (heq ▸ hl.locate_value hc)
    · exact hrest c hc hmem
  by_cases hplace : ∃ i, l.locate f = some (.value, i)
  · obtain ⟨i, hlocate⟩ := hplace
    have hmem : f ∈ l.fields := Layout.contains_iff.mp (by rw [Layout.contains, hlocate]; rfl)
    obtain ⟨places, hplaces, hlength⟩ := exists_inputPlaces (hl.inputs_mem f hmem)
    have hcount : (places.map t.at?).length = f.inputs.length := by rw [List.length_map, hlength]
    obtain ⟨v, hv⟩ := exists_compute hf hcount
    have ht : Derived.fillField l t f = t.setValue i v := by
      simp only [Derived.fillField, hlocate, hplaces, hv]
    have hu : Derived.fillField l u f = u.setValue i v := by
      simp only [Derived.fillField, hlocate, hplaces, ← h.map_at_eq hinputs hplaces, hv]
    rw [ht, hu]
    refine ⟨h.keys_eq, ?_, fun j hrest => ?_⟩
    · rw [Tally.setValue, Tally.setValue, List.length_set, List.length_set, h.length_eq]
    · rw [Tally.setValue, Tally.setValue, List.getElem?_set, List.getElem?_set, h.length_eq]
      by_cases hij : i = j
      · rw [if_pos hij, if_pos hij]
      · rw [if_neg hij, if_neg hij]
        refine hbefore j (fun hj => hij ?_) hrest
        exact congrArg Prod.snd (Option.some.inj (hlocate.symm.trans hj))
  · have hsame : ∀ v, Derived.fillField l v f = v := by
      intro v
      rcases fillField_cases l v f with hv | ⟨i, _, hlocate, -⟩
      · exact hv
      · exact absurd ⟨i, hlocate⟩ hplace
    rw [hsame t, hsame u]
    exact ⟨h.keys_eq, h.length_eq, fun j hrest => hbefore j (fun hj => hplace ⟨j, hj⟩) hrest⟩

/-- Filling in fields, each after its inputs, makes groups agree in them. -/
theorem AgreeBut.foldl_fillField (hl : l.Valid) {fs : List FieldId} (h : AgreeBut l fs t u)
    (hfs : ∀ f ∈ fs, f ∈ FieldId.derived) (hself : ∀ f ∈ fs, f ∉ f.inputs)
    (hafter : fs.Pairwise fun f g => g ∉ f.inputs) :
    AgreeBut l [] (fs.foldl (Derived.fillField l) t) (fs.foldl (Derived.fillField l) u) := by
  induction fs generalizing t u with
  | nil => exact h
  | cons f rest ih =>
    obtain ⟨hf, hrest⟩ := List.pairwise_cons.mp hafter
    have hinputs : ∀ g ∈ f.inputs, g ∉ f :: rest := by
      intro g hg hmem
      rcases List.mem_cons.mp hmem with rfl | hmem
      · exact hself g List.mem_cons_self hg
      · exact hf g hmem hg
    refine ih (h.fillField hl (hfs f List.mem_cons_self) hinputs) ?_ ?_ hrest
    · exact fun g hg => hfs g (List.mem_cons_of_mem f hg)
    · exact fun g hg => hself g (List.mem_cons_of_mem f hg)

/-- What is filled in does not depend on the merged values of the derived fields. -/
theorem fill_congr (hl : l.Valid) (h : AgreeBut l FieldId.derived t u) : fill l t = fill l u := by
  have hagree : AgreeBut l [] (fill l t) (fill l u) :=
    h.foldl_fillField hl (fun _ hf => hf) (by decide) (by decide)
  have hvalues : (fill l t).values = (fill l u).values :=
    List.ext_getElem? fun i => hagree.values_eq i fun _ _ => List.not_mem_nil
  exact congrArg₂ Tally.mk hagree.keys_eq hvalues

/-- Filling in twice is filling in once. -/
theorem fill_fill (hl : l.Valid) (t : Tally) : fill l (fill l t) = fill l t :=
  fill_congr hl ⟨keys_fill l t, length_values_fill l t, fun _ h => values_fill_of_not_derived t h⟩

end

end FlowTally.Derived
