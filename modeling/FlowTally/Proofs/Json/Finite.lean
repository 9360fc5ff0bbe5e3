import FlowTally.Json.Reader
import FlowTally.Proofs.Json.ReadBack
import FlowTally.Proofs.Json.Scale

/-!
# Numbers that are read are finite

A number is read as a word or as a word times a power of ten. A product that overflows is no
number; a quotient never overflows, because the tabled powers of ten are at least one and dividing
by the largest of them again and again only makes a number smaller.
-/

namespace FlowTally.Json

/-- The powers of ten are at least one. -/
theorem powerAtLeast_powerOfTen {k : Nat} (hk : k < 309) :
    PowerAtLeast (-52) (powerOfTen k).toModel.unpack := by
  have hworth := worthAtMost_powerOfTen hk
  generalize (powerOfTen k).toModel.unpack = u at hworth ⊢
  cases hworth with
  | @finite s m e hm hbits hleast =>
    exact .finite ((Nat.log2_lt hm.ne').mp (by omega)) hleast

/-- The largest tabled power of ten is near the largest number. -/
theorem powerAtLeast_largest : PowerAtLeast 971 (powerOfTen 308).toModel.unpack := by
  decide +kernel

/-- A word is a machine number with a small power of two. -/
theorem powerAtMost_toFloat (n : UInt64) : PowerAtMost 233 n.toFloat.toModel.unpack :=
  (powerAtMost_unpack_pack (powerAtMost_ofNat n.toNat_lt) (.inl (by omega))).mono (by omega)

/-- The quotient of a machine number and a tabled power of ten. -/
theorem powerAtMost_quotient {x y : Int} {f g : Float} (hf : PowerAtMost x f.toModel.unpack)
    (hg : PowerAtLeast y g.toModel.unpack) (hsmall : max (x - y) (-1074) + 319 < 972) :
    PowerAtMost (max (x - y) (-1074) + 319) (f / g).toModel.unpack := by
  have hdiv := powerAtMost_div hf (fun _ _ _ _ h => lt_of_unpack h) hg
  exact (powerAtMost_unpack_pack hdiv (.inl hsmall)).mono (by omega)

/-- Dividing by powers of ten never overflows. -/
theorem powerAtMost_shrink {f : Float} (h : PowerAtMost 233 f.toModel.unpack) (places : Nat) :
    PowerAtMost 604 (shrink f places).toModel.unpack := by
  induction f, places using shrink.induct with
  | case1 f places hle =>
    rw [shrink, if_pos hle]
    exact powerAtMost_quotient h (powerAtLeast_powerOfTen (by omega)) (by omega)
  | case2 f places hgt hzero =>
    rw [shrink, if_neg hgt, if_pos hzero]
    exact h.mono (by omega)
  | case3 f places hgt hzero ih =>
    rw [shrink, if_neg hgt, if_neg hzero]
    exact ih ((powerAtMost_quotient h powerAtLeast_largest (by omega)).mono (by omega))

/-- A product of a machine number and a tabled power of ten is finite unless it is infinite. -/
theorem isFinite_product {x y : Int} {f g : Float} (hf : PowerAtMost x f.toModel.unpack)
    (hg : PowerAtLeast y g.toModel.unpack) (hinf : (f * g).isInf = false) :
    (f * g).isFinite = true := by
  obtain ⟨z, hz⟩ := hg.exists_powerAtMost
  obtain ⟨w, hw⟩ := exists_powerAtMost_mul hf hz
  exact (powerAtMost_unpack_pack hw (.inr hinf)).isFinite

/-- A word times a power of ten is finite, if it is in range. -/
theorem isFinite_of_scale? {n : Nat} {e : Int} {x : Binary64} (h : scale? n e = some x) :
    x.isFinite = true := by
  have hword := powerAtMost_toFloat (UInt64.ofNat n)
  unfold scale? at h
  dsimp only at h
  split at h
  · obtain rfl := Option.some.inj h
    exact Binary64.isFinite_ofFloat (powerAtMost_shrink hword _).isFinite
  · split at h
    · next hsmall =>
      split at h
      · cases h
      · next hinf =>
        obtain rfl := Option.some.inj h
        have hplaces : e.toNat < 309 := by omega
        have hpower := powerAtLeast_powerOfTen hplaces
        exact Binary64.isFinite_ofFloat (isFinite_product hword hpower (by simpa using hinf))
    · split at h
      · obtain rfl := Option.some.inj h
        decide
      · cases h

/-- Turning the sign over keeps a number finite. -/
theorem isFinite_neg {x : Binary64} (h : x.isFinite = true) : x.neg.isFinite = true := by
  rwa [Binary64.isFinite, Binary64.magnitudeBits_neg]

/-- A word is a finite number. -/
theorem isFinite_ofUInt64 (n : UInt64) : (Binary64.ofUInt64 n).isFinite = true :=
  Binary64.isFinite_ofFloat (powerAtMost_toFloat n).isFinite

/-- An integer is a finite number. -/
theorem isFinite_integer (i : Int) : (Number.integer i).toBinary64.isFinite = true := by
  rw [Number.toBinary64]
  split
  · exact isFinite_neg (isFinite_ofUInt64 _)
  · exact isFinite_ofUInt64 _

/-- A number made of its parts is finite. -/
theorem isFinite_of_ofParts? {negative : Bool} {front back : List Char} {exponent : Option Int}
    {n : Number}
    (h : Number.ofParts? negative front back exponent = some n) : n.toBinary64.isFinite = true := by
  have hsign : ∀ {x : Binary64}, x.isFinite = true →
      (if negative then x.neg else x).isFinite = true := by
    intro x hx
    cases negative with
    | true => exact isFinite_neg hx
    | false => exact hx
  unfold Number.ofParts? at h
  dsimp only at h
  split at h
  · split at h
    · obtain rfl := Option.some.inj h
      exact isFinite_integer _
    · split at h
      · obtain rfl := Option.some.inj h
        exact isFinite_integer _
      · obtain rfl := Option.some.inj h
        exact hsign (isFinite_ofUInt64 _)
  · obtain ⟨x, hx, rfl⟩ := Option.map_eq_some_iff.mp h
    exact hsign (isFinite_of_scale? hx)

/-- A number that is read is finite. -/
theorem isFinite_of_read? {cs rest : List Char} {n : Number} (h : Number.read? cs = some (n, rest)) :
    n.toBinary64.isFinite = true := by
  unfold Number.read? at h
  simp only [Option.bind_eq_bind, Option.bind_eq_some_iff, Option.some.injEq, Prod.mk.injEq] at h
  obtain ⟨front, -, back, -, exponent, -, m, hm, rfl, -⟩ := h
  exact isFinite_of_ofParts? hm

/-- A value that is read is a finite number, an object with the members that were read, or of
another kind. -/
theorem value?_cases {fuel depth : Nat} {cs rest : List Char} {j : Json}
    (h : value? (fuel + 1) depth cs = some (j, rest)) :
    (∃ n, j = .num n ∧ n.toBinary64.isFinite = true) ∨
      (∃ depth cs ms, j = .ofMembers ms ∧
        (ms = [] ∨ members? fuel depth cs = some (ms, rest))) ∨
      (∀ n, j ≠ .num n) ∧ ∀ ms, j ≠ .obj ms := by
  unfold value? at h
  split at h
  · obtain ⟨rfl, -⟩ := Prod.mk.inj (Option.some.inj h)
    exact .inr (.inr (by simp))
  · obtain ⟨rfl, -⟩ := Prod.mk.inj (Option.some.inj h)
    exact .inr (.inr (by simp))
  · obtain ⟨rfl, -⟩ := Prod.mk.inj (Option.some.inj h)
    exact .inr (.inr (by simp))
  · obtain ⟨⟨s, more⟩, -, heq⟩ := Option.map_eq_some_iff.mp h
    obtain ⟨rfl, -⟩ := Prod.mk.inj heq
    exact .inr (.inr (by simp))
  · split at h
    · cases h
    · split at h
      · obtain ⟨rfl, -⟩ := Prod.mk.inj (Option.some.inj h)
        exact .inr (.inr (by simp))
      · obtain ⟨⟨items, more⟩, -, heq⟩ := Option.map_eq_some_iff.mp h
        obtain ⟨rfl, -⟩ := Prod.mk.inj heq
        exact .inr (.inr (by simp))
  · split at h
    · cases h
    · split at h
      · obtain ⟨rfl, -⟩ := Prod.mk.inj (Option.some.inj h)
        exact .inr (.inl ⟨0, [], [], rfl, .inl rfl⟩)
      · obtain ⟨⟨ms, more⟩, hms, heq⟩ := Option.map_eq_some_iff.mp h
        obtain ⟨rfl, rfl⟩ := Prod.mk.inj heq
        exact .inr (.inl ⟨_, _, ms, rfl, .inr hms⟩)
  · obtain ⟨⟨n, more⟩, hn, heq⟩ := Option.map_eq_some_iff.mp h
    obtain ⟨rfl, -⟩ := Prod.mk.inj heq
    exact .inl ⟨n, rfl, isFinite_of_read? hn⟩

/-- A value that is read is finite if it is a number. -/
theorem isFinite_of_value? {fuel depth : Nat} {cs rest : List Char} {n : Number}
    (h : value? fuel depth cs = some (.num n, rest)) : n.toBinary64.isFinite = true := by
  cases fuel with
  | zero => cases h
  | succ fuel =>
    rcases value?_cases h with ⟨m, heq, hm⟩ | ⟨_, _, ms, heq, -⟩ | ⟨hnum, -⟩
    · rwa [Json.num.inj heq]
    · cases heq
    · exact absurd rfl (hnum n)

/-- A member that is read is finite if it is a number. -/
theorem isFinite_of_members? {fuel depth : Nat} {cs rest : List Char} {ms : List (String × Json)}
    (h : members? fuel depth cs = some (ms, rest)) {name : String} {n : Number}
    (hmem : (name, .num n) ∈ ms) : n.toBinary64.isFinite = true := by
  induction fuel generalizing cs ms with
  | zero => cases h
  | succ fuel ih =>
    unfold members? at h
    split at h
    · split at h
      · cases h
      · split at h
        · split at h
          · cases h
          · next value more hvalue =>
            have hfirst : value = .num n → n.toBinary64.isFinite = true := by
              rintro rfl
              exact isFinite_of_value? hvalue
            split at h
            · obtain ⟨⟨others, end'⟩, hothers, heq⟩ := Option.map_eq_some_iff.mp h
              obtain ⟨rfl, rfl⟩ := Prod.mk.inj heq
              rcases List.mem_cons.mp hmem with hone | hmem
              · exact hfirst (Prod.mk.inj hone).2.symm
              · exact ih hothers hmem
            · obtain ⟨rfl, -⟩ := Prod.mk.inj (Option.some.inj h)
              exact hfirst (Prod.mk.inj (List.mem_singleton.mp hmem)).2.symm
            · cases h
        · cases h
    · cases h

/-- The members of an object that is read are finite where they are numbers. -/
theorem isFinite_of_read?_obj {line : String} {ms : List (String × Json)}
    (h : read? line = some (.obj ms)) {name : String} {n : Number}
    (hmem : (name, .num n) ∈ ms) : n.toBinary64.isFinite = true := by
  unfold read? at h
  dsimp only at h
  split at h
  · next value rest hvalue =>
    split at h
    · obtain rfl := Option.some.inj h
      rcases value?_cases hvalue with ⟨m, heq, -⟩ | ⟨_, _, given, heq, hgiven⟩ | ⟨-, hobj⟩
      · cases heq
      · obtain ⟨sorted, hsorted, -, hmembers, -⟩ := exists_ofMembers given
        obtain rfl : ms = sorted := Json.obj.inj (heq.trans hsorted)
        rcases hgiven with rfl | hgiven
        · exact absurd (hmembers _ hmem) List.not_mem_nil
        · exact isFinite_of_members? hgiven (hmembers _ hmem)
      · exact absurd rfl (hobj ms)
    · cases h
  · cases h

end FlowTally.Json
