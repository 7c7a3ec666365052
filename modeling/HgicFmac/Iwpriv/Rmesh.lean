import HgicFmac.Iwpriv.Records

/-!
# The list of mesh devices

* `GetOut.output` : what a handler copies over the request;
* `RmeshShown` : the devices are shown, in a buffer of 4096 bytes and from the records alone; `RmeshRight` : and they
  were asked for;
* `recordLoop_stops` : a loop that leaves records out has printed 8112 characters;
* `rmesh_device_never` : the command is the wrong one, and the devices are shown for an empty list and for a structure
  that the request cuts.
-/

namespace HgicFmac.Iwpriv
open Lib Fwctrl

/-- `length` is that of the request. -/
def GetOut.output (out : GetOut) (length : Nat) : List UInt8 :=
  match out.copy with
  | some c => c.src.read 0 (c.copied (out.setLen.getD length))
  | none => []

structure RmeshDevice where
  aid : UInt8
  addr : List UInt8
  len : addr.length = 6

def RmeshDevice.bytes (dev : RmeshDevice) : List UInt8 := dev.aid :: dev.addr

theorem RmeshDevice.length_bytes (dev : RmeshDevice) : dev.bytes.length = 7 := by
  rw [RmeshDevice.bytes, List.length_cons, dev.len]

def RmeshDevice.line (dev : RmeshDevice) : List UInt8 := rmeshLine (Mem.ofList dev.bytes) 0

abbrev rmeshReply : List RmeshDevice → Reply := listReply 7 RmeshDevice.bytes

/-- `format` is 1. -/
abbrev WantsRecords (req : List UInt8) : Prop := getFormat (req.take 64) % 2 ^ 32 = 1

/-- The devices are copied, or as many lines as fit behind a title; nothing behind the records is read. -/
structure RmeshShown (req : List UInt8) (devs : List RmeshDevice) (out : GetOut) : Prop where
  records : WantsRecords req → out.output req.length = (devs.flatMap RmeshDevice.bytes).take req.length
  text : ¬ WantsRecords req → ∃ title k, title.count 10 ≤ 1 ∧ k ≤ devs.length ∧
    out.output req.length = (title ++ (devs.take k).flatMap RmeshDevice.line).take req.length ∧
    (k < devs.length → 4096 ≤ (title ++ (devs.take (k + 1)).flatMap RmeshDevice.line).length)
  fits : ∀ u ∈ out.texts, u.used ≤ 4096
  inside : ∀ u ∈ out.arrays, u.used ≤ 7 * devs.length

structure RmeshRight (req : List UInt8) (devs : List RmeshDevice) (out : GetOut) : Prop where
  query : out.cmd = some HgicCmd.getRmeshDevice
  shown : RmeshShown req devs out

theorem recordLoop_stops (line : Nat → List UInt8) (count i len : Nat)
    (h : (recordLoop line count i len).length < count) : 8112 ≤ len + (recordLoop line count i len).flatten.length := by
  induction count generalizing i len with
  | zero => exact absurd h (Nat.not_lt_zero _)
  | succ count ih =>
    rw [recordLoop] at h ⊢
    split at h
    · next hg =>
      rw [if_pos hg, List.flatten_cons, List.length_append, ← Nat.add_assoc]
      exact ih (i + 1) _ (Nat.lt_of_succ_lt_succ h)
    · next hg =>
      rw [if_neg hg]
      omega

section Devices
variable {env : GetEnv} {req : List UInt8} {devs : List RmeshDevice} (hr : env.r = rmeshReply devs)
  (hn : devs.length ≤ 585)
include hr hn

theorem read_recordBuf {k : Nat} (hk : k ≤ 7 * devs.length) :
    (recordBuf env req (585 * 7)).read 0 k = (devs.flatMap RmeshDevice.bytes).take k := by
  have hlen := length_flatMap_records RmeshDevice.length_bytes devs
  rw [← read_ofList _ (by omega)]
  apply read_congr
  intro i _ hi
  unfold recordBuf
  rw [data_listReply hr (by omega) RmeshDevice.length_bytes (by omega)]
  exact write_zero _ _ (by omega)

theorem getRmeshDevice_records (hk : env.kmem = true) (hf : WantsRecords req) :
    hgicIwprivGetRmeshDevice env req = ⟨0, some HgicCmd.setRmeshDevice, none,
      some ⟨recordBuf env req (585 * 7), (7 * devs.length : Nat) * 7, 7 * devs.length⟩, [], []⟩ := by
  unfold hgicIwprivGetRmeshDevice
  rw [if_neg (not_not.mpr hk)]
  dsimp only
  rw [if_pos hf, status_listReply hr (by omega), data_listReply hr (by omega) RmeshDevice.length_bytes (by omega),
    length_flatMap_records RmeshDevice.length_bytes]

theorem getRmeshDevice_nil (hk : env.kmem = true) (hf : ¬ WantsRecords req) (hnil : devs = []) :
    hgicIwprivGetRmeshDevice env req =
      ⟨0, some HgicCmd.setRmeshDevice, none, some ⟨Mem.ofList [], 0, 0⟩, [], []⟩ := by
  unfold hgicIwprivGetRmeshDevice
  rw [if_neg (not_not.mpr hk)]
  dsimp only
  rw [if_neg hf, status_listReply hr (by omega), hnil]
  rfl

/-- The number of bytes is taken for the number of devices. -/
theorem getRmeshDevice_text (hk : env.kmem = true) (hf : ¬ WantsRecords req) (hne : devs ≠ []) :
    let lines := recordText (7 * devs.length) " dev:\r\n" fun i => rmeshLine (recordBuf env req (585 * 7)) (7 * i)
    hgicIwprivGetRmeshDevice env req = ⟨0, some HgicCmd.setRmeshDevice, none,
      some ⟨Mem.ofList lines.flatten, lines.flatten.length, lines.flatten.length⟩,
      [⟨lines.flatten.length + 1, 4096⟩], [⟨7 * (lines.length - 1), 4096⟩]⟩ := by
  have hpos := List.length_pos_of_ne_nil hne
  unfold hgicIwprivGetRmeshDevice
  rw [if_neg (not_not.mpr hk)]
  dsimp only
  rw [if_neg hf, status_listReply hr (by omega), if_pos (by omega), Int.toNat_natCast]

theorem rmesh_records_iff (hk : env.kmem = true) (hf : WantsRecords req) :
    RmeshShown req devs (hgicIwprivGetRmeshDevice env req) ↔ devs = [] ∨ req.length ≤ 7 * devs.length := by
  have hlen := length_flatMap_records RmeshDevice.length_bytes devs
  have hcopied : ∀ src filled, Copy.copied ⟨src, (7 * devs.length : Nat) * 7, filled⟩ req.length =
      min (49 * devs.length) req.length := by
    intro src filled
    dsimp only [Copy.copied]
    omega
  rw [getRmeshDevice_records hr hn hk hf]
  constructor
  · intro h
    have hout := congrArg List.length (h.records hf)
    simp only [GetOut.output, Option.getD_none, hcopied, length_read, List.length_take, hlen] at hout
    rw [← List.length_eq_zero_iff]
    omega
  · intro h
    refine ⟨fun _ => ?_, fun h' => absurd hf h', nofun, nofun⟩
    simp only [GetOut.output, Option.getD_none, hcopied]
    rcases h with h | h
    · rw [h, List.length_nil, Nat.mul_zero, Nat.zero_min]
      exact List.take_nil.symm
    · rw [Nat.min_eq_right (by omega)]
      exact read_recordBuf hr hn h

/-- The loop prints records that were not returned, or it has filled a buffer of 8192 bytes. -/
theorem rmesh_text_iff (hk : env.kmem = true) (hf : ¬ WantsRecords req) :
    RmeshShown req devs (hgicIwprivGetRmeshDevice env req) ↔ devs = [] := by
  constructor
  · intro h
    by_contra hne
    have hpos := List.length_pos_of_ne_nil hne
    rw [getRmeshDevice_text hr hn hk hf hne] at h
    have hfits := h.fits _ (List.mem_singleton_self _)
    have hinside := h.inside _ (List.mem_singleton_self _)
    unfold recordText at hfits hinside
    simp only [List.flatten_cons, List.length_append, List.length_cons, Nat.add_sub_cancel] at hfits hinside
    have hstop := recordLoop_stops (fun i => rmeshLine (recordBuf env req (585 * 7)) (7 * i)) (7 * devs.length) 0
      ((dec (7 * devs.length : Nat)).length + (bytes " dev:\r\n").length) (by omega)
    omega
  · intro h
    rw [getRmeshDevice_nil hr hn hk hf h, h]
    refine ⟨fun h' => absurd h' hf, fun _ => ?_, nofun, nofun⟩
    exact ⟨[], 0, Nat.zero_le _, Nat.le_refl 0, List.take_nil.symm, nofun⟩

end Devices

/-- For at most 585 devices the handler never does what it is for: it sends the command that sets a device. What it
makes of the answer is right without devices, and for structures that are cut to their length. -/
theorem rmesh_device_never (env : GetEnv) (req : List UInt8) (devs : List RmeshDevice) (hr : env.r = rmeshReply devs)
    (hn : devs.length ≤ 585) :
    ¬ RmeshRight req devs (hgicIwprivGetRmeshDevice env req) ∧
      (env.kmem = true → (RmeshShown req devs (hgicIwprivGetRmeshDevice env req) ↔
        devs = [] ∨ WantsRecords req ∧ req.length ≤ 7 * devs.length)) := by
  constructor
  · intro h
    have hcmd := h.query
    unfold hgicIwprivGetRmeshDevice at hcmd
    split at hcmd
    · cases hcmd
    · dsimp only at hcmd
      split at hcmd
      · cases hcmd
      · split at hcmd <;> cases hcmd
  · intro hk
    by_cases hf : WantsRecords req
    · rw [rmesh_records_iff hr hn hk hf, and_iff_right hf]
    · rw [rmesh_text_iff hr hn hk hf]
      exact ⟨.inl, fun h => h.resolve_right fun h' => hf h'.1⟩

def meshDevice : RmeshDevice := ⟨1, [2, 0, 0, 0, 0, 1], rfl⟩

def rmeshRequest : List UInt8 := textRequest "rmesh_device"

theorem rmesh_device_never_one :
    ¬ RmeshRight rmeshRequest [meshDevice] (hgicIwprivGetRmeshDevice (answer (rmeshReply [meshDevice])) rmeshRequest) ∧
      (true = true → (RmeshShown rmeshRequest [meshDevice]
          (hgicIwprivGetRmeshDevice (answer (rmeshReply [meshDevice])) rmeshRequest) ↔
        [meshDevice] = [] ∨ WantsRecords rmeshRequest ∧ rmeshRequest.length ≤ 7 * 1)) :=
  rmesh_device_never (answer (rmeshReply [meshDevice])) rmeshRequest [meshDevice] rfl (by decide)

/-- One device: seven records are printed. -/
theorem rmesh_device_fails : ¬ RmeshRight rmeshRequest [meshDevice]
    (hgicIwprivGetRmeshDevice (answer (rmeshReply [meshDevice])) rmeshRequest) := by
  have harrays : (hgicIwprivGetRmeshDevice (answer (rmeshReply [meshDevice])) rmeshRequest).arrays = [⟨49, 4096⟩] := by
    decide +kernel
  intro h
  exact absurd (h.shown.inside ⟨49, 4096⟩ (harrays ▸ List.mem_singleton_self _)) (by decide)

end HgicFmac.Iwpriv
