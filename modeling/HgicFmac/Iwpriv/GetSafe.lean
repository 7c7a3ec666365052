import HgicFmac.Iwpriv.Get

/-!
# What an answer must be for the handler that gets it

* `GetOut.Sound` : only what was filled in is copied or read for a text, and texts fit;
* `raw_sound`, `text_sound`, `short_sound` : the families;
* `staWidth`, `rmeshWidth`, `bssWidth` : the characters of a record;
* `recordLoop_fits`, `recordLoop_sum` : the loops over records;
* `Getting.Ok` : the answers that each handler can deal with;
* `get_answer_sound` : a handler is sound exactly for them.
-/

namespace HgicFmac.Iwpriv
open Lib Fwctrl

/-- `length` is that of the request. -/
structure GetOut.Sound (out : GetOut) (length : Nat) : Prop where
  copy : ∀ c ∈ out.copy, c.copied (out.setLen.getD length) ≤ c.filled
  texts : ∀ u ∈ out.texts, u.used ≤ u.size
  arrays : ∀ u ∈ out.arrays, u.used ≤ u.size

/-! ## The answer -/

theorem doCmd_fst {r : Reply} {n : Nat} (hn : n ≤ maxCmdLen) (cap : Nat) :
    (hgicFwctrlDoCmd r n cap).1 = (hgicFwctrlDoCmd r 0 0).1 := by
  unfold hgicFwctrlDoCmd
  rw [if_neg (Nat.not_lt.mpr hn), if_neg (Nat.not_lt_zero _)]
  split
  · split <;> rfl
  · rfl

section
variable {env : GetEnv} {req : List UInt8}

theorem data_length (env : GetEnv) (cap : Nat) : (env.data cap).length = min env.status.toNat cap := by
  unfold GetEnv.data GetEnv.status
  rw [doCmd_length, doCmd_fst (Nat.zero_le _) cap]

theorem status_range (env : GetEnv) : -2 ^ 15 ≤ env.status ∧ env.status < 2 ^ 15 := doCmd_range env.r 0 0

/-! ## The families -/

theorem quit_sound (ret : Int) (cmd : Option Nat) (length : Nat) : (GetOut.quit ret cmd).Sound length :=
  ⟨nofun, nofun, nofun⟩

theorem kmem_sound {kmem : Bool} {ret : Int} {cmd : Option Nat} {out : GetOut} {length : Nat} {p : Prop}
    (h : kmem = true → (out.Sound length ↔ p)) :
    (if ¬ kmem then GetOut.quit ret cmd else out).Sound length ↔ (kmem = true → p) := by
  split
  · next hk => exact iff_of_true (quit_sound ..) fun hp => absurd hp hk
  · next hk =>
    rw [forall_prop_of_true (not_not.mp hk)]
    exact h (not_not.mp hk)

theorem copy_sound {ret : Int} {cmd : Option Nat} {src : Mem} {len : Int} {filled length : Nat} :
    GetOut.Sound ⟨ret, cmd, none, some ⟨src, len, filled⟩, [], []⟩ length ↔ (min len length).toNat ≤ filled := by
  constructor
  · intro h
    exact h.copy _ rfl
  · intro h
    refine ⟨fun c hc => ?_, nofun, nofun⟩
    rw [← Option.some.inj hc]
    exact h

/-- A handler that copies a text: the copy is sound, and the text fits if its length is below that of the buffer. -/
theorem formatted_sound {ret : Int} {cmd setLen : Option Nat} {s : List UInt8} {size length : Nat} {arrays : List Use} :
    GetOut.Sound ⟨ret, cmd, setLen, some ⟨Mem.ofList s, s.length, s.length⟩, [⟨s.length + 1, size⟩], arrays⟩ length ↔
      s.length < size ∧ ∀ u ∈ arrays, u.used ≤ u.size := by
  constructor
  · intro h
    exact ⟨h.texts _ (List.mem_singleton_self _), h.arrays⟩
  · rintro ⟨htext, harrays⟩
    refine ⟨fun c hc => ?_, fun u hu => ?_, harrays⟩
    · rw [← Option.some.inj hc]
      dsimp only [Copy.copied]
      omega
    · rw [List.mem_singleton.mp hu]
      exact htext

theorem text_sound (cmd size : Nat) (s : List UInt8) (length : Nat) :
    (GetOut.ofText cmd size s).Sound length ↔ s.length < size :=
  formatted_sound.trans (and_iff_left nofun)

/-- The answer fits the buffer, or the request is no longer than it. -/
def Clamped (env : GetEnv) (req : List UInt8) (cap : Nat) : Prop := env.status ≤ cap ∨ req.length ≤ cap

theorem raw_sound (cmd cap : Nat) (old : GetEnv → Mem) :
    (rawGet cmd cap old env req).Sound req.length ↔ Clamped env req cap := by
  apply copy_sound.trans
  rw [data_length]
  unfold Clamped
  omega

theorem exact_sound (cmd size : Nat) : (exactGet cmd size env req).Sound req.length := by
  unfold exactGet
  split
  · next h =>
    apply copy_sound.mpr
    rw [data_length, h]
    omega
  · exact quit_sound ..

/-! ## Lengths of texts -/

theorem dec_byte (b : UInt8) : (dec b.toNat).length ≤ 3 := by
  have := b.toNat_lt
  refine (dec_length_le_iff (k := 2) (by decide)).mpr ⟨?_, ?_⟩ <;> omega

theorem toS8_range (x : Int) : -2 ^ 7 ≤ toS8 x ∧ toS8 x < 2 ^ 7 := by
  unfold toS8
  split <;> omega

theorem toS32_range (x : Int) : -2 ^ 31 ≤ toS32 x ∧ toS32 x < 2 ^ 31 := by
  unfold toS32
  split <;> omega

theorem dec_s8 (m : Mem) (off : Nat) : (dec (s8At m off)).length ≤ 4 := by
  have := toS8_range (m off).toNat
  unfold s8At
  refine (dec_length_le_iff (k := 3) (by decide)).mpr ⟨?_, ?_⟩ <;> omega

theorem dec_s32 (x : Int) : (dec (toS32 x)).length ≤ 11 := by
  have := toS32_range x
  refine (dec_length_le_iff (k := 10) (by decide)).mpr ⟨?_, ?_⟩ <;> omega

theorem short_sound (cmd : Nat) :
    (shortText cmd 4 env req).Sound req.length ↔ -100 < env.status ∧ env.status < 1000 := by
  refine (text_sound ..).trans (Nat.lt_succ_iff.trans ?_)
  exact dec_length_le_iff (k := 2) (by decide)

theorem short12_sound (cmd : Nat) : (shortText cmd 12 env req).Sound req.length := by
  have := status_range env
  refine (text_sound ..).mpr (Nat.lt_succ_iff.mpr ((dec_length_le_iff (k := 10) (by decide)).mpr ⟨?_, ?_⟩)) <;> omega

theorem dec_getIntVal : (dec (getIntVal env)).length ≤ 11 := by
  unfold getIntVal
  split
  · exact dec_s32 _
  · exact (dec_length_le_iff (k := 10) (by decide)).mpr (by decide)

theorem intText_sound (cmd : Nat) {size : Nat} (hsize : 12 ≤ size) :
    (intText cmd size env req).Sound req.length :=
  (text_sound ..).mpr (Nat.lt_of_lt_of_le (Nat.lt_succ_of_le dec_getIntVal) hsize)

theorem pM_length (m : Mem) (off : Nat) : (pM m off).length = 17 := rfl

theorem dec_zero_or_one {n : Nat} (h : n ≤ 1) : (dec n).length = 1 := by
  match n, h with
  | 0, _ => rfl
  | 1, _ => rfl

theorem firstBits_one (e : Endian) (b : UInt8) : firstBits e 1 b ≤ 1 := by
  have := b.toNat_lt
  cases e
  · exact Nat.le_of_lt_succ (Nat.mod_lt _ (by decide))
  · show b.toNat / 2 ^ 7 ≤ 1
    omega

/-- The characters of a `struct hgic_sta_info`: 62, and those of its five numbers. -/
def staWidth (m : Mem) (off : Nat) : Nat :=
  62 + (dec (m off).toNat).length + (dec (s8At m (off + 8))).length + (dec (s8At m (off + 9))).length +
    (dec (s8At m (off + 10))).length + (dec (s8At m (off + 11))).length

theorem staWidth_range (m : Mem) (off : Nat) : 67 ≤ staWidth m off ∧ staWidth m off ≤ 81 := by
  have haid := dec_byte (m off)
  have haid' := dec_length_pos (m off).toNat
  have hpos := fun o => dec_length_pos (s8At m o)
  have := dec_s8 m (off + 8)
  have := dec_s8 m (off + 9)
  have := dec_s8 m (off + 10)
  have := dec_s8 m (off + 11)
  have := hpos (off + 8)
  have := hpos (off + 9)
  have := hpos (off + 10)
  have := hpos (off + 11)
  unfold staWidth
  omega

theorem staLine_length (e : Endian) (m : Mem) (off : Nat) : (staLine e m off).length = staWidth m off := by
  have hps := dec_zero_or_one (firstBits_one e (m (off + 1)))
  have hfix : (bytes "aid:").length + (bytes ", ").length + (bytes ", ps:").length + (bytes ", rssi:").length +
    (bytes ", evm:").length + (bytes ", tx_snr:").length + (bytes ", rx_snr:").length +
    (bytes "\r\n").length = 44 := rfl
  unfold staLine staWidth
  simp only [List.length_append, pM_length]
  omega

/-- The characters of a `struct hgic_rmesh_device`: 25, and those of its number. -/
def rmeshWidth (m : Mem) (off : Nat) : Nat := 25 + (dec (m off).toNat).length

theorem rmeshLine_length (m : Mem) (off : Nat) : (rmeshLine m off).length = rmeshWidth m off := by
  have hfix : (bytes "aid:").length + (bytes ", ").length + (bytes "\r\n").length = 8 := rfl
  unfold rmeshLine rmeshWidth
  simp only [List.length_append, pM_length]
  omega

theorem linkLine_length (m : Mem) : (linkLine m).length < 512 := by
  have hb := dec_s8 m
  have hv := fun i => dec_s32 (load32 .little m (4 + 4 * i))
  have hfix : (bytes "Link Quality: bgrssi=").length + (bytes ", rssi=").length + (bytes ", evm=").length +
    (bytes ", per=").length + (bytes ", obss_sta=").length + (bytes ", bss_stas=").length + (bytes ", cca=[").length +
    7 * (bytes ",").length + (bytes "]\r\n").length ≤ 100 := by decide
  have := hb 0
  have := hb 1
  have := hb 2
  have := hb 3
  have := hv 0
  have := hv 1
  have := hv 2
  have := hv 3
  have := hv 4
  have := hv 5
  have := hv 6
  have := hv 7
  have := hv 8
  have := hv 9
  unfold linkLine
  simp only [List.length_append]
  omega

/-! ## The loops over records -/

def widthSum (width : Nat → Nat) (i n : Nat) : Nat := ((List.range n).map fun j => width (i + j)).sum

theorem widthSum_succ (width : Nat → Nat) (i n : Nat) :
    widthSum width i (n + 1) = width i + widthSum width (i + 1) n := by
  unfold widthSum
  rw [List.range_succ_eq_map, List.map_cons, List.sum_cons, List.map_map, Nat.add_zero]
  congr 3
  ext j
  show width (i + (j + 1)) = width (i + 1 + j)
  rw [Nat.add_assoc, Nat.add_comm 1]

section Loop
variable {line : Nat → List UInt8} {width : Nat → Nat} (hwidth : ∀ j, (line j).length = width j)
include hwidth

/-- The text with its terminating 0 is too long only for a line of 81 characters that starts at the last place. -/
theorem recordLoop_fits (hmax : ∀ j, width j ≤ 81) (count i len : Nat) (hlen : len < 8192) :
    len + (recordLoop line count i len).flatten.length < 8192 ↔
      ∀ k < count, len + widthSum width i k = 8111 → width (i + k) ≤ 80 := by
  induction count generalizing i len with
  | zero => exact iff_of_true hlen nofun
  | succ count ih =>
    have hl := hmax i
    rw [recordLoop, hwidth i]
    split
    · next hg =>
      rw [List.flatten_cons, List.length_append, ← Nat.add_assoc, hwidth i]
      by_cases hlast : len + width i < 8192
      · rw [ih (i + 1) (len + width i) hlast]
        constructor
        · intro h k hk hstart
          cases k with
          | zero =>
            have : len + 0 = 8111 := hstart
            rw [Nat.add_zero]
            omega
          | succ k =>
            rw [widthSum_succ, ← Nat.add_assoc] at hstart
            have := h k (Nat.lt_of_succ_lt_succ hk) hstart
            rwa [Nat.add_assoc, Nat.add_comm 1] at this
        · intro h k hk hstart
          rw [Nat.add_assoc i 1 k, Nat.add_comm 1 k]
          apply h (k + 1) (Nat.succ_lt_succ hk)
          rw [widthSum_succ, ← Nat.add_assoc]
          exact hstart
      · apply iff_of_false (by omega)
        intro h
        have h0 : width i ≤ 80 := h 0 (Nat.succ_pos _) (by show len + 0 = 8111; omega)
        omega
    · next hg =>
      apply iff_of_true hlen
      intro k _ hstart
      omega

/-- The guard does not matter for a limit below it. -/
theorem recordLoop_sum {cap : Nat} (hcap : cap ≤ 8112) (count i len : Nat) :
    len + (recordLoop line count i len).flatten.length < cap ↔ len + widthSum width i count < cap := by
  induction count generalizing i len with
  | zero => rfl
  | succ count ih =>
    rw [recordLoop]
    split
    · rw [List.flatten_cons, List.length_append, widthSum_succ, ← Nat.add_assoc, ← Nat.add_assoc, hwidth i]
      exact ih (i + 1) (len + width i)
    · next hg => exact iff_of_false (by omega) (by omega)

theorem recordLoop_count {d : Nat} (hmin : ∀ j, d ≤ width j) (count i len : Nat)
    (hne : recordLoop line count i len ≠ []) : d * ((recordLoop line count i len).length - 1) + len ≤ 8111 := by
  induction count generalizing i len with
  | zero => exact absurd rfl hne
  | succ count ih =>
    rw [recordLoop] at hne ⊢
    split at hne
    · next hg =>
      rw [if_pos hg, List.length_cons, Nat.add_sub_cancel]
      by_cases hrest : recordLoop line count (i + 1) (len + (line i).length) = []
      · rw [hrest, List.length_nil, Nat.mul_zero]
        omega
      · have h := ih (i + 1) (len + (line i).length) hrest
        have hpos := List.length_pos_of_ne_nil hrest
        have hl := hmin i
        have hw := hwidth i
        obtain ⟨n, hn⟩ : ∃ n, (recordLoop line count (i + 1) (len + (line i).length)).length = n + 1 :=
          ⟨_, (Nat.succ_pred_eq_of_pos hpos).symm⟩
        rw [hn, Nat.add_sub_cancel] at h
        rw [hn, Nat.mul_succ]
        omega
    · exact absurd rfl hne

theorem recordText_reads {d record : Nat} (hd : 0 < d) (hmin : ∀ j, d ≤ width j)
    (hfit : record * (8111 / d + 1) ≤ 4096) (count : Nat) (what : String) :
    record * ((recordText count what line).length - 1) ≤ 4096 := by
  refine Nat.le_trans (Nat.mul_le_mul_left record ?_) hfit
  show (recordLoop line count 0 (dec count ++ bytes what).length).length ≤ _
  by_cases hne : recordLoop line count 0 (dec count ++ bytes what).length = []
  · rw [hne]
    exact Nat.zero_le _
  · have h := recordLoop_count hwidth hmin count 0 _ hne
    have hle : (recordLoop line count 0 (dec count ++ bytes what).length).length - 1 ≤ 8111 / d :=
      (Nat.le_div_iff_mul_le hd).mpr (by rw [Nat.mul_comm]; omega)
    omega

end Loop

theorem records_sound (cmd size record : Nat) (lines : List (List UInt8)) (length : Nat) :
    GetOut.Sound ⟨0, some cmd, none, some ⟨Mem.ofList lines.flatten, lines.flatten.length, lines.flatten.length⟩,
      [⟨lines.flatten.length + 1, size⟩], [⟨record * (lines.length - 1), 4096⟩]⟩ length ↔
      lines.flatten.length < size ∧ record * (lines.length - 1) ≤ 4096 :=
  formatted_sound.trans (and_congr_right fun _ => List.forall_mem_singleton)

theorem noRecords_sound (cmd : Nat) (length : Nat) :
    GetOut.Sound ⟨0, some cmd, none, some ⟨Mem.ofList [], 0, 0⟩, [], []⟩ length := by
  apply copy_sound.mpr
  omega

/-! ## Handlers of their own -/

/-- A structure is copied: no more than was filled in. A list: no line of 81 characters starts at the last place. -/
def StaListOk (env : GetEnv) (req : List UInt8) : Prop :=
  let width := fun i => staWidth (recordBuf env req (341 * 12)) (12 * i)
  let count := env.status.toNat / 12
  if getFormat (req.take 64) % 2 ^ 32 = 1 then env.status < 342 * 12 ∨ req.length ≤ 341 * 12
  else ∀ k < count, (dec count).length + 7 + widthSum width 0 k = 8111 → width k ≤ 80

theorem staList_sound :
    (hgicIwprivGetStaList env req).Sound req.length ↔ (env.kmem = true → StaListOk env req) := by
  have hrange := status_range env
  have hdata := data_length env (341 * 12)
  unfold hgicIwprivGetStaList
  refine kmem_sound fun _ => ?_
  unfold StaListOk
  dsimp only
  split
  · apply copy_sound.trans
    split <;> omega
  · have hcount : (if 0 < env.status then env.status / 12 else env.status).toNat = env.status.toNat / 12 := by
      split <;> omega
    rw [hcount]
    by_cases hpos : 0 < (if 0 < env.status then env.status / 12 else env.status)
    · rw [if_pos hpos]
      apply (records_sound ..).trans
      have hrange := fun i => staWidth_range (recordBuf env req (341 * 12)) (12 * i)
      have hwidth := fun i => staLine_length env.e (recordBuf env req (341 * 12)) (12 * i)
      rw [and_iff_left (recordText_reads hwidth (d := 67) (by decide) (fun j => (hrange j).1) (by decide) _ _)]
      have htitle : (dec (env.status.toNat / 12 : Nat)).length ≤ 11 :=
        (dec_length_le_iff (k := 10) (by decide)).mpr ⟨by omega, by omega⟩
      show (List.flatten (_ :: _)).length < 8192 ↔ _
      rw [List.flatten_cons, List.length_append, recordLoop_fits hwidth fun j => (hrange j).2]
      · simp only [Nat.zero_add, List.length_append]
        rfl
      · rw [List.length_append]
        show _ + 7 < 8192
        omega
    · rw [if_neg hpos]
      apply iff_of_true (noRecords_sound ..)
      intro k hk
      split at hpos <;> omega

/-- A structure is copied: the request is no longer than what was filled in. A list: the lines of as many records as the
answer has bytes fit `print_buf`. -/
def RmeshOk (env : GetEnv) (req : List UInt8) : Prop :=
  let width := fun i => rmeshWidth (recordBuf env req (585 * 7)) (7 * i)
  let count := env.status.toNat
  0 < env.status →
    if getFormat (req.take 64) % 2 ^ 32 = 1 then req.length ≤ env.status ∧ req.length ≤ 585 * 7
    else (dec count).length + 7 + widthSum width 0 count < 4096

theorem rmeshDevice_sound :
    (hgicIwprivGetRmeshDevice env req).Sound req.length ↔ (env.kmem = true → RmeshOk env req) := by
  have hdata := data_length env (585 * 7)
  unfold hgicIwprivGetRmeshDevice
  refine kmem_sound fun _ => ?_
  unfold RmeshOk
  dsimp only
  split
  · apply copy_sound.trans
    omega
  · split
    · next hpos =>
      rw [forall_prop_of_true hpos]
      apply (records_sound ..).trans
      have hwidth := fun i => rmeshLine_length (recordBuf env req (585 * 7)) (7 * i)
      have hmin : ∀ i, 26 ≤ rmeshWidth (recordBuf env req (585 * 7)) (7 * i) := fun i =>
        Nat.add_le_add_left (dec_length_pos _) 25
      rw [and_iff_left (recordText_reads hwidth (d := 26) (by decide) hmin (by decide) _ _)]
      show (List.flatten (_ :: _)).length < 4096 ↔ _
      rw [List.flatten_cons, List.length_append, recordLoop_sum hwidth (by decide), List.length_append]
      rfl
    · next hpos => exact iff_of_true (noRecords_sound ..) fun h => absurd h hpos

theorem chanList_sound :
    (hgicIwprivGetChanList env req).Sound req.length ↔ (env.kmem = true → env.status < 34) := by
  unfold hgicIwprivGetChanList
  refine kmem_sound fun _ => ?_
  constructor
  · intro h
    have := h.arrays _ (List.mem_singleton_self _)
    dsimp only at this
    rw [data_length] at this
    omega
  · intro h
    have htext : ∀ n, ((List.range n).flatMap fun i =>
        dec (load16 env.e (env.stack.write 0 (env.data 32)) (2 * i)) ++ bytes ",").length ≤ 6 * n := by
      intro n
      induction n with
      | zero => exact Nat.le_refl 0
      | succ n ih =>
        have hdec : (dec (load16 env.e (env.stack.write 0 (env.data 32)) (2 * n))).length ≤ 5 := by
          have := load16_lt env.e (env.stack.write 0 (env.data 32)) (2 * n)
          exact (dec_length_le_iff (k := 4) (by decide)).mpr ⟨by omega, by omega⟩
        have hcomma : (bytes ",").length = 1 := rfl
        rw [List.range_succ, List.flatMap_append, List.length_append, List.flatMap_singleton, List.length_append]
        omega
    have := htext (env.status.toNat / 2)
    refine ⟨fun c hc => ?_, fun u hu => ?_, fun u hu => ?_⟩
    · cases hc
      dsimp only [Copy.copied, Option.getD_none]
      omega
    · rw [List.mem_singleton.mp hu]
      dsimp only
      omega
    · rw [List.mem_singleton.mp hu]
      dsimp only
      rw [data_length]
      omega

/-! ## The list of networks -/

theorem padLeft_length (n : Nat) (s : List UInt8) : (padLeft n s).length = max n s.length := by
  unfold padLeft
  rw [List.length_append, List.length_replicate]
  omega

theorem encrypt_width (n : Nat) : (padLeft 10 (encryptText n)).length = 10 := by
  rw [padLeft_length]
  unfold encryptText
  split
  · rfl
  · split <;> rfl

theorem freq_width (e : Endian) (m : Mem) (off : Nat) : (padLeft 10 (dec (load16 e m off))).length = 10 := by
  have := load16_lt e m off
  have : (dec (load16 e m off)).length ≤ 9 + 1 := (dec_length_le_iff (by decide)).mpr ⟨by omega, by omega⟩
  rw [padLeft_length]
  omega

theorem signal_width (m : Mem) (off : Nat) : (padLeft 10 (dec (s8At m off))).length = 10 := by
  have := dec_s8 m off
  rw [padLeft_length]
  omega

/-- The characters of a `struct hgic_bss_info`: 45, and those of `ssid` and `signal`. -/
def bssWidth (buf : List UInt8) (off : Nat) : Nat :=
  45 + (strAt buf (off + 6)).length + (dec (s8At (Mem.ofList buf) (off + 39))).length

/-- The characters of a `struct hgic_bss_info1`: 57, and those of `ssid`, `country_region` and `bss_bw`. -/
def bssWidth1 (buf : List UInt8) (off : Nat) : Nat :=
  57 + (strAt buf (off + 6)).length + max 10 (strAt buf (off + 42)).length +
    (dec (Mem.ofList buf (off + 46)).toNat).length

theorem bssLine_length (e : Endian) (buf : List UInt8) (off : Nat) :
    (bssLine e buf off).length = bssWidth buf off := by
  have hfix : (bytes "\t").length + (bytes "\t ").length + (bytes "\t  ").length + (bytes "\t").length +
    (bytes "\n").length = 8 := rfl
  unfold bssLine bssWidth
  simp only [List.length_append, pM_length, encrypt_width, freq_width]
  omega

theorem bssLine1_length (e : Endian) (buf : List UInt8) (off : Nat) :
    (bssLine1 e buf off).length = bssWidth1 buf off := by
  have hfix : 4 * (bytes "\t").length + (bytes "\t ").length + (bytes "\t  ").length + (bytes "\n").length = 10 := rfl
  unfold bssLine1 bssWidth1
  simp only [List.length_append, pM_length, encrypt_width, freq_width, signal_width]
  rw [padLeft_length]
  omega

def scanWidth (env : GetEnv) (off : Nat) : Nat :=
  if lastBits env.e 2 (Mem.ofList (scanBuf env) 38) ≠ 1 then bssWidth (scanBuf env) off else bssWidth1 (scanBuf env) off

theorem scanLine_length (off : Nat) : ((scanForm env).line (scanBuf env) off).length = scanWidth env off := by
  unfold scanForm scanWidth
  split
  · exact bssLine_length ..
  · exact bssLine1_length ..

def scanLength (env : GetEnv) : Nat :=
  (bytes (scanForm env).title).length + widthSum (fun i => scanWidth env ((scanForm env).size * i)) 0 (scanCount env)

theorem scanText_length : (scanText env).length = scanLength env := by
  unfold scanText scanLength widthSum
  rw [List.length_append, List.length_flatMap]
  simp only [scanLine_length, Nat.zero_add]

theorem cstr_length_lt {s : List UInt8} {n : Nat} (hn : n ≤ s.length) : (cstr s).length < n ↔ 0 ∈ s.take n := by
  induction s generalizing n with
  | nil => exact iff_of_false (Nat.not_lt.mpr hn) (by simp)
  | cons b s ih =>
    unfold cstr at ih ⊢
    cases n with
    | zero => exact iff_of_false (Nat.not_lt_zero _) (by simp)
    | succ n =>
      rw [List.take_succ_cons, List.mem_cons]
      by_cases hb : b = 0
      · exact iff_of_true (by simp [hb]) (.inl hb.symm)
      · rw [List.takeWhile_cons_of_pos (by simpa using hb), List.length_cons, Nat.add_lt_add_iff_right,
          ih (Nat.le_of_succ_le_succ hn)]
        exact ⟨.inr, fun h => h.resolve_left fun h0 => hb h0.symm⟩

theorem scanBuf_length (env : GetEnv) : 1024 ≤ (scanBuf env).length := by
  have := data_length env 1024
  unfold scanBuf
  rw [List.length_append, List.length_append, List.length_replicate]
  omega

theorem strAt_ends (off : Nat) :
    off + (strAt (scanBuf env) off).length + 1 ≤ 1024 ↔ 0 ∈ ((scanBuf env).take 1024).drop off := by
  have hbuf := scanBuf_length env
  by_cases hoff : off ≤ 1024
  · have hlt := cstr_length_lt (s := (scanBuf env).drop off) (n := 1024 - off) (by rw [List.length_drop]; omega)
    rw [List.drop_take, ← hlt]
    unfold strAt
    omega
  · rw [List.drop_eq_nil_of_le (by rw [List.length_take]; omega)]
    exact iff_of_false (by omega) nofun

/-- The records lie in `buf`, their strings end there and their text fits `print_buf`. Without an answer two bytes are
copied. -/
def ScanOk (env : GetEnv) (req : List UInt8) : Prop :=
  let size := (scanForm env).size
  if 0 < env.status then
    (∀ i < scanCount env, size * (i + 1) ≤ 1024 ∧
      ∀ o ∈ (scanForm env).strs, 0 ∈ ((scanBuf env).take 1024).drop (size * i + o)) ∧
    scanLength env < 4096
  else req = []

theorem scanReads_inside :
    (∀ u ∈ scanReads env, u.used ≤ u.size) ↔
      ∀ i < scanCount env, (scanForm env).size * (i + 1) ≤ 1024 ∧
        ∀ o ∈ (scanForm env).strs, 0 ∈ ((scanBuf env).take 1024).drop ((scanForm env).size * i + o) := by
  unfold scanReads
  simp only [List.forall_mem_flatMap, List.mem_range, List.forall_mem_cons, List.forall_mem_map, strAt_ends]

theorem scanList_sound :
    (hgicIwprivGetScanList env req).Sound req.length ↔ (env.kmem = true → ScanOk env req) := by
  unfold hgicIwprivGetScanList
  refine kmem_sound fun _ => ?_
  unfold ScanOk
  dsimp only
  split
  · rw [← scanReads_inside, ← scanText_length]
    exact formatted_sound.trans and_comm
  · rw [← List.length_eq_zero_iff]
    apply copy_sound.trans
    omega

/-! ## Other handlers -/

theorem bssid_sound : (hgicIwprivGetBssid env req).Sound req.length := by
  have hs := dec_s8 (Mem.ofList (env.data 7)) 6
  have hb := dec_byte (Mem.ofList (env.data 7) 6)
  have hcomma : (bytes ",").length = 1 := rfl
  apply (text_sound ..).mpr
  split
  · rw [List.length_append, List.length_append, pM_length]
    split <;> omega
  · decide

theorem aggcnt_sound : (hgicIwprivGetAggcnt env req).Sound req.length := by
  have hrange := status_range env
  have hb := fun i => dec_byte (Mem.ofList (env.data 2) i)
  have := hb 0
  have := hb 1
  have hstatus : (dec env.status).length ≤ 4 + 2 := (dec_length_le_iff (by decide)).mpr ⟨by omega, by omega⟩
  have htx : (bytes "tx:").length = 3 := rfl
  have hrx : (bytes ",rx:").length = 4 := rfl
  have hrx0 : (bytes ",rx:0").length = 5 := rfl
  apply (text_sound ..).mpr
  split <;> simp only [List.length_append] <;> omega

theorem moduleType_sound : (hgicIwprivGetModuleType env req).Sound req.length := by
  unfold hgicIwprivGetModuleType
  dsimp only
  split
  · refine (text_sound ..).mpr (Nat.lt_succ_iff.mpr ?_)
    exact (dec_length_le_iff (k := 10) (by decide)).mpr ⟨by omega, by omega⟩
  · exact quit_sound ..

theorem rtc_sound : (hgicIwprivGetRtc env req).Sound req.length := by
  have := load32_lt env.e (Mem.ofList (env.data 4)) 0
  refine (text_sound ..).mpr (Nat.lt_succ_iff.mpr ?_)
  exact (dec_length_le_iff (k := 10) (by decide)).mpr ⟨by omega, by omega⟩

theorem signal_sound : (hgicIwprivGetSignal env req).Sound req.length := by
  have := status_range env
  refine (text_sound ..).mpr (Nat.lt_succ_iff.mpr ?_)
  exact (dec_length_le_iff (k := 10) (by decide)).mpr ⟨by omega, by omega⟩

theorem bgrssi_sound : (hgicIwprivGetBgrssi env req).Sound req.length := by
  unfold hgicIwprivGetBgrssi
  split
  · exact quit_sound ..
  dsimp only
  split
  · have hb := dec_s8 (Mem.ofList (env.data 3))
    have := hb 0
    have := hb 1
    have := hb 2
    have hcomma : (bytes ",").length = 1 := rfl
    apply (text_sound ..).mpr
    simp only [List.length_append]
    omega
  · exact quit_sound ..

theorem freqOffset_sound : (hgicIwprivGetFreqOffset env req).Sound req.length := by
  unfold hgicIwprivGetFreqOffset
  split
  · exact quit_sound ..
  · exact intText_sound _ (by decide)

theorem fwinfo_sound : (hgicIwprivGetFwinfo env req).Sound req.length := by
  apply copy_sound.mpr
  omega

/-- The three numbers have at most 29 characters. -/
def FreqRangeOk (env : GetEnv) : Prop :=
  let width := fun i => (dec (toS32 (load32 .little (Mem.ofList (env.data 12)) (4 * i)))).length
  env.status = 12 → width 0 + width 1 + width 2 ≤ 29

theorem freqRange_sound : (hgicIwprivGetFreqRange env req).Sound req.length ↔ FreqRangeOk env := by
  apply (text_sound ..).trans
  unfold FreqRangeOk
  split
  · next h =>
    have hcomma : (bytes ",").length = 1 := rfl
    rw [forall_prop_of_true h]
    simp only [List.length_append]
    omega
  · next h => exact iff_of_true (by decide) fun h' => absurd h' h

/-- The structure is copied, or printed if there is an answer: then the device has to send all of it. -/
def StaInfoOk (env : GetEnv) (req : List UInt8) : Prop :=
  match strchr 61 (reqText env req) with
  | some (_, arg) => if infoFormat arg % 2 ^ 8 = 1 then Clamped env req 12 else env.status ≤ 0 ∨ 12 ≤ env.status
  | none => True

theorem staInfo_sound :
    (hgicIwprivGetStaInfo env req).Sound req.length ↔ (env.kmem = true → StaInfoOk env req) := by
  unfold hgicIwprivGetStaInfo
  refine kmem_sound fun _ => ?_
  unfold StaInfoOk
  cases strchr 61 (reqText env req) with
  | none => exact iff_of_true (quit_sound ..) trivial
  | some parts =>
  dsimp only
  split
  · exact raw_sound ..
  split
  · have hwidth := (staWidth_range (env.stack.write 0 (env.data 12)) 0).2
    have hlen := staLine_length env.e (env.stack.write 0 (env.data 12)) 0
    apply formatted_sound.trans
    rw [List.forall_mem_singleton, data_length]
    dsimp only
    omega
  · apply iff_of_true (copy_sound.mpr _)
    · omega
    · omega

theorem linkQuality_sound :
    (hgicIwprivGetLinkQuality env req).Sound req.length ↔
      (env.kmem = true → getFormat (reqText env req) % 2 ^ 8 = 1 → min 44 req.length ≤ env.status.toNat) := by
  have hdata := data_length env 44
  unfold hgicIwprivGetLinkQuality
  refine kmem_sound fun _ => ?_
  dsimp only
  split
  · next hf =>
    rw [forall_prop_of_true hf]
    apply copy_sound.trans
    omega
  · next hf => exact iff_of_true ((text_sound ..).mpr (linkLine_length _)) fun h' => absurd h' hf

theorem alloc_sound (ret : Int) (cmd cap : Nat) (old : GetEnv → Mem) :
    (if ¬ env.kmem then GetOut.quit ret none else rawGet cmd cap old env req).Sound req.length ↔
      (env.kmem = true → Clamped env req cap) := by
  exact kmem_sound fun _ => raw_sound ..

end

/-! ## The table -/

/-- The answers, with the request and the outcome of `kmalloc`, that each handler can deal with. -/
def Getting.Ok (env : GetEnv) (req : List UInt8) : Getting → Prop
  | .mode => Clamped env req 12
  | .ssid => Clamped env req 32
  | .keyMgmt => Clamped env req 32
  | .wpaPsk => env.kmem = true → Clamped env req 64
  | .wkdataBuff => env.kmem = true → Clamped env req 4096
  | .acsResult => env.kmem = true → Clamped env req (32 * 8)
  | .stainfo => env.kmem = true → StaInfoOk env req
  | .linkQuality => env.kmem = true → getFormat (reqText env req) % 2 ^ 8 = 1 → min 44 req.length ≤ env.status.toNat
  | .txpower => -100 < env.status ∧ env.status < 1000
  | .bssBw => -100 < env.status ∧ env.status < 1000
  | .batteryLevel => -100 < env.status ∧ env.status < 1000
  | .chanList => env.kmem = true → env.status < 34
  | .freqRange => FreqRangeOk env
  | .staList => env.kmem = true → StaListOk env req
  | .rmeshDevice => env.kmem = true → RmeshOk env req
  | .scanList => env.kmem = true → ScanOk env req
  | _ => True

theorem get_answer_sound (g : Getting) (env : GetEnv) (req : List UInt8) :
    (g.row.2 env req).Sound req.length ↔ g.Ok env req := by
  cases g with
  | mode => exact raw_sound ..
  | ssid => exact raw_sound ..
  | keyMgmt => exact raw_sound ..
  | wpaPsk => exact alloc_sound ..
  | wkdataBuff => exact alloc_sound ..
  | acsResult => exact alloc_sound ..
  | stainfo => exact staInfo_sound
  | linkQuality => exact linkQuality_sound
  | txpower => exact short_sound ..
  | bssBw => exact short_sound ..
  | batteryLevel => exact short_sound ..
  | chanList => exact chanList_sound
  | freqRange => exact freqRange_sound
  | staList => exact staList_sound
  | rmeshDevice => exact rmeshDevice_sound
  | scanList => exact scanList_sound
  | bssid => exact iff_of_true bssid_sound trivial
  | aggCnt => exact iff_of_true aggcnt_sound trivial
  | moduleType => exact iff_of_true moduleType_sound trivial
  | rtc => exact iff_of_true rtc_sound trivial
  | signal => exact iff_of_true signal_sound trivial
  | bgrssi => exact iff_of_true bgrssi_sound trivial
  | freqOffset => exact iff_of_true freqOffset_sound trivial
  | fwinfo => exact iff_of_true fwinfo_sound trivial
  | xosc => exact iff_of_true (intText_sound _ (Nat.le_refl 12)) trivial
  | txBitrate => exact iff_of_true (intText_sound _ (Nat.le_refl 12)) trivial
  | txqParam => exact iff_of_true (exact_sound ..) trivial
  | dhcpcResult => exact iff_of_true (exact_sound ..) trivial
  | _ => exact iff_of_true (short12_sound ..) trivial

def longAnswer : GetEnv := ⟨.little, true, ⟨true, some ⟨20, fun _ => 65⟩⟩, true, fun _ => 0, fun _ => 0, []⟩

/-- The answer to `mode` is cut to 12 bytes, and 20 are copied from there. -/
theorem mode_copies_stack : ¬ (Getting.mode.row.2 longAnswer (bytes "mode" ++ List.replicate 28 0)).Sound 32 := by
  intro h
  have : (min longAnswer.status 32).toNat ≤ (longAnswer.data 12).length := h.copy _ rfl
  revert this
  decide

end HgicFmac.Iwpriv
