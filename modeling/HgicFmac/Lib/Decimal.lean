import HgicFmac.Lib.Text

/-!
# Numbers that are written and read back

`simpleStrtol_dec` : the text of `%d` is read as the number that was written, in base 10 and in base 0;
`simpleStrtoul_dec` : without a sign only a number from 0 on is; `dec_mem` : the characters of the text.
-/

namespace HgicFmac.Lib

/-- A character of a literal or of a number. -/
def byteOf (c : Char) : UInt8 := UInt8.ofNat c.toNat

theorem byteOf_toNat {c : Char} (h : c.isDigit = true) :
    (byteOf c).toNat = c.toNat ∧ 48 ≤ (byteOf c).toNat ∧ (byteOf c).toNat ≤ 57 := by
  have hc : 48 ≤ c.toNat ∧ c.toNat ≤ 57 := Char.isDigit_iff_toNat.mp h
  have hn : (byteOf c).toNat = c.toNat := by
    unfold byteOf
    rw [UInt8.toNat_ofNat']
    omega
  rw [hn]
  exact ⟨rfl, hc⟩

theorem digit_byteOf {c : Char} (h : c.isDigit = true) : digit (byteOf c) = some (c.toNat - 48) := by
  obtain ⟨hn, h48, h57⟩ := byteOf_toNat h
  unfold digit
  rw [if_pos ⟨UInt8.le_iff_toNat_le.mpr h48, UInt8.le_iff_toNat_le.mpr h57⟩, hn]

theorem parseInteger_digits {cs : List Char} (h : ∀ c ∈ cs, c.isDigit = true) (acc : Nat) :
    parseInteger 10 acc (cs.map byteOf) = (Nat.ofDigitChars 10 cs acc, []) := by
  induction cs generalizing acc with
  | nil => rfl
  | cons c cs ih =>
    obtain ⟨hc, hcs⟩ := List.forall_mem_cons.mp h
    have hlt : c.toNat - 48 < 10 := by
      have := byteOf_toNat hc
      omega
    rw [List.map_cons, parseInteger, digit_byteOf hc]
    dsimp only
    rw [if_pos hlt, ih hcs, Nat.ofDigitChars_cons, Nat.mul_comm acc]
    rfl

theorem isDigit_toDigits (n : Nat) : ∀ c ∈ Nat.toDigits 10 n, c.isDigit = true := by
  intro c hc
  exact Nat.isDigit_of_mem_toDigits (by decide) (by decide) hc

theorem parseInteger_toDigits (n : Nat) : parseInteger 10 0 ((Nat.toDigits 10 n).map byteOf) = (n, []) := by
  rw [parseInteger_digits (isDigit_toDigits n), Nat.ofDigitChars_ten_toDigits]

/-! ## The base -/

theorem toDigits_head {n : Nat} (hn : 0 < n) : ∃ c cs, Nat.toDigits 10 n = c :: cs ∧ c.toNat ≠ 48 := by
  induction n using Nat.base_induction 10 (by decide) with
  | single m hm =>
    refine ⟨m.digitChar, [], Nat.toDigits_of_lt_base hm, ?_⟩
    rw [Nat.toNat_digitChar_of_lt_ten hm]
    omega
  | digit m k hk hm ih =>
    obtain ⟨c, cs, hm', hc⟩ := ih hm
    refine ⟨c, cs ++ Nat.toDigits 10 k, ?_, hc⟩
    rw [← Nat.toDigits_append_toDigits (by decide) hm hk, hm']
    rfl

theorem fixupRadix_ten (s : List UInt8) : fixupRadix 10 s = (10, s) := by
  unfold fixupRadix
  split
  · exact if_neg fun h => by simp at h
  · exact if_neg fun h => by simp at h
  · rfl
  · rfl

theorem fixupRadix_zero {b : UInt8} (hb : b ≠ 48) (s : List UInt8) : fixupRadix 0 (b :: s) = (10, b :: s) := by
  unfold fixupRadix
  split
  · next h => exact absurd (List.cons.inj h).1 hb
  · next h => exact absurd (List.cons.inj h).1 hb
  · next h => exact absurd (List.cons.inj h).1 hb
  · rfl

theorem simpleStrtoul_toDigits {base : Nat} (hbase : base = 10 ∨ base = 0) (n : Nat) :
    simpleStrtoul base ((Nat.toDigits 10 n).map byteOf) = n := by
  unfold simpleStrtoul
  rcases hbase with rfl | rfl
  · rw [fixupRadix_ten]
    exact congrArg Prod.fst (parseInteger_toDigits n)
  · rcases Nat.eq_zero_or_pos n with rfl | hn
    · -- The only digit is taken for the prefix of base 8.
      rfl
    · obtain ⟨c, cs, hcs, hc⟩ := toDigits_head hn
      have hdig : c.isDigit = true := isDigit_toDigits n c (hcs ▸ List.mem_cons_self)
      have hb : byteOf c ≠ 48 := by
        intro h
        have h48 : (byteOf c).toNat = 48 := congrArg UInt8.toNat h
        exact hc ((byteOf_toNat hdig).1.symm.trans h48)
      rw [hcs, List.map_cons, fixupRadix_zero hb, ← List.map_cons, ← hcs]
      exact congrArg Prod.fst (parseInteger_toDigits n)

/-! ## `%d` -/

theorem dec_of_nonneg {x : Int} (h : 0 ≤ x) : dec x = (Nat.toDigits 10 x.natAbs).map byteOf := by
  unfold dec
  rw [if_neg (by omega)]
  rfl

theorem dec_of_neg {x : Int} (h : x < 0) : dec x = 45 :: (Nat.toDigits 10 x.natAbs).map byteOf := by
  unfold dec
  rw [if_pos h]
  rfl

theorem dec_mem {x : Int} {b : UInt8} (h : b ∈ dec x) : b = 45 ∨ 48 ≤ b.toNat ∧ b.toNat ≤ 57 := by
  have hdigits : b ∈ (Nat.toDigits 10 x.natAbs).map byteOf → 48 ≤ b.toNat ∧ b.toNat ≤ 57 := by
    intro hb
    obtain ⟨c, hc, rfl⟩ := List.mem_map.mp hb
    exact (byteOf_toNat (isDigit_toDigits _ c hc)).2
  rcases Int.lt_or_le x 0 with hx | hx
  · rw [dec_of_neg hx, List.mem_cons] at h
    exact h.imp_right hdigits
  · rw [dec_of_nonneg hx] at h
    exact .inr (hdigits h)

theorem simpleStrtol_digits {base : Nat} (hbase : base = 10 ∨ base = 0) (n : Nat) :
    simpleStrtol base ((Nat.toDigits 10 n).map byteOf) = n := by
  unfold simpleStrtol
  split
  · next s hs =>
    obtain ⟨c, hc, h45⟩ := List.mem_map.mp (hs ▸ List.mem_cons_self : (45 : UInt8) ∈ (Nat.toDigits 10 n).map byteOf)
    have hge := (byteOf_toNat (isDigit_toDigits n c hc)).2.1
    rw [h45] at hge
    exact absurd hge (by decide)
  · rw [simpleStrtoul_toDigits hbase]

theorem simpleStrtol_dec {base : Nat} (hbase : base = 10 ∨ base = 0) (x : Int) : simpleStrtol base (dec x) = x := by
  rcases Int.lt_or_le x 0 with hx | hx
  · rw [dec_of_neg hx, simpleStrtol, simpleStrtoul_toDigits hbase]
    omega
  · rw [dec_of_nonneg hx, simpleStrtol_digits hbase]
    omega

theorem simpleStrtoul_dec (x : Int) : simpleStrtoul 10 (dec x) = if 0 ≤ x then x.toNat else 0 := by
  split
  · next hx =>
    rw [dec_of_nonneg hx, simpleStrtoul_toDigits (.inl rfl)]
    omega
  · next hx =>
    rw [dec_of_neg (by omega)]
    unfold simpleStrtoul
    rw [fixupRadix_ten]
    rfl

end HgicFmac.Lib
