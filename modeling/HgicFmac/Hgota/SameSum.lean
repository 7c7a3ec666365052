import HgicFmac.Hgota.Libota
import HgicFmac.SendFw.CheckSum

/-!
# The checksum of the tool against that of the driver

`libota_check_sum` reads the odd last byte through a plain `char`, `hgic_ota_check_sum` through a `u8`.

* `OddLastSigned` : `char` is signed and the last byte of an odd number is at least 128;
* `same_check_sum_iff` : that is when the two checksums differ. The sums are then 256 apart, which is not 0 modulo 65535.
-/

namespace HgicFmac.Hgota
open Lib SendFw

def OddLastSigned (h : Host) (bs : List UInt8) : Prop :=
  h.charSigned = true ∧ bs.length % 2 = 1 ∧ ∃ b, bs.getLast? = some b ∧ 128 ≤ b.toNat

section Values
variable (h : Host)

theorem charVal_of_signed (hs : h.charSigned = true) {b : UInt8} (hb : 128 ≤ b.toNat) :
    charVal h b = u8Val b - 256 := by simp [charVal, u8Val, hs, hb]

theorem charVal_of_not {b : UInt8} (hb : ¬ (h.charSigned = true ∧ 128 ≤ b.toNat)) : charVal h b = u8Val b := by
  unfold charVal
  rw [if_neg (by rwa [Bool.and_eq_true, decide_eq_true_iff]), u8Val]

theorem charVal_range (b : UInt8) : -128 ≤ charVal h b ∧ charVal h b ≤ 255 := by
  have hlo := u8Val_nonneg b
  have hhi := u8Val_le b
  by_cases hb : h.charSigned = true ∧ 128 ≤ b.toNat
  · have hb2 : 128 ≤ u8Val b := Int.ofNat_le.mpr hb.2
    rw [charVal_of_signed h hb.1 hb.2]
    omega
  · rw [charVal_of_not h hb]
    omega

/-- The difference of the sums. -/
theorem charSum_sub (bs : List UInt8) : wordSum h.e (charVal h) bs - wordSum h.e u8Val bs = 0 ∧ ¬ OddLastSigned h bs ∨
    wordSum h.e (charVal h) bs - wordSum h.e u8Val bs = -256 ∧ OddLastSigned h bs := by
  rw [wordSum_sub]
  by_cases hodd : bs.length % 2 = 1
  · rw [if_pos hodd]
    have hne : bs ≠ [] := by
      rintro rfl
      cases hodd
    rw [List.getLast?_eq_some_getLast hne, Option.elim_some]
    by_cases hb : h.charSigned = true ∧ 128 ≤ (bs.getLast hne).toNat
    · right
      refine ⟨?_, hb.1, hodd, _, List.getLast?_eq_some_getLast hne, hb.2⟩
      rw [charVal_of_signed h hb.1 hb.2]
      omega
    · left
      refine ⟨?_, ?_⟩
      · rw [charVal_of_not h hb, Int.sub_self]
      · rintro ⟨hs, -, b, hlast, hb128⟩
        rw [List.getLast?_eq_some_getLast hne, Option.some.injEq] at hlast
        exact hb ⟨hs, hlast ▸ hb128⟩
  · left
    rw [if_neg hodd]
    exact ⟨rfl, fun hdiff => hodd hdiff.2.1⟩

end Values

/-- The driver and the tool have the same checksum for a fragment exactly when it is not one of an odd number of bytes
whose last one is negative as a `char`. -/
theorem same_check_sum_iff (h : Host) (bs : List UInt8) (hlen : bs.length ≤ 65535) :
    libotaCheckSum h bs = hgicOtaCheckSum h.e bs ↔ ¬ OddLastSigned h bs := by
  have hlt := u8Sum_lt h.e hlen
  have hnonneg := u8Sum_nonneg h.e bs
  rcases charSum_sub h bs with ⟨hsub, hodd⟩ | ⟨hsub, hodd⟩
  · refine ⟨fun _ => hodd, fun _ => ?_⟩
    have hsum : wordSum h.e (charVal h) bs = wordSum h.e u8Val bs := Int.sub_eq_zero.mp hsub
    show checkSum h.e (charVal h) bs = checkSum h.e u8Val bs
    unfold checkSum
    rw [hsum]
  · refine ⟨fun heq => ?_, fun hn => absurd hodd hn⟩
    have hlo : -128 ≤ wordSum h.e (charVal h) bs := le_wordSum (by decide) (fun b => (charVal_range h b).1) bs
    have hne : checkSum h.e (charVal h) bs ≠ checkSum h.e u8Val bs := by
      apply checkSum_ne
      all_goals omega
    exact absurd heq hne

/-- One byte: the tool sees `-128` where the driver sees 128. -/
theorem same_check_sum_fails : ¬ ∀ (h : Host) (bs : List UInt8), bs.length ≤ 65535 →
    libotaCheckSum h bs = hgicOtaCheckSum h.e bs := by
  intro hall
  exact absurd (hall ⟨.little, true⟩ [0x80] (by decide)) (by decide)

/-- An even number of bytes on such a host. -/
theorem same_check_sum_iff_even :
    libotaCheckSum ⟨.little, true⟩ [0x12, 0x80] = hgicOtaCheckSum .little [0x12, 0x80] :=
  (same_check_sum_iff ⟨.little, true⟩ [0x12, 0x80] (by decide)).mpr fun hodd => absurd hodd.2.1 (by decide)

end HgicFmac.Hgota
