import HgicFmac.Iwpriv.TestApp

/-!
# The mask for wakeup data

`test_app` has two functions for `wkdata_mask`. One stores the offset as a byte, as the driver reads it, the other as
two bytes.

* `TestApp.hgicIwprivSetWkdataMask`, `TestApp.hgicProcSetWkdataMask` : the two;
* `MasksArrive` : both make the driver send the offset and the mask;
* `wkdataMask_sent` : what the driver makes of a value; `iwpriv_mask_arrives`, `proc_mask_arrives` : when each does;
* `masksArrive_iff` : when both do.
-/

namespace HgicFmac.Iwpriv
open Lib Fwctrl

namespace TestApp

/-- `hgic_iwpriv_set_wkdata_mask`: the offset is stored to a `char`. -/
def hgicIwprivSetWkdataMask (user : User) (e : Endian) (sys : Sys) (ifname : List UInt8) (offset : Int)
    (mask : List UInt8) : Run DoOut :=
  hgicIwprivSetBytes user e sys ifname (bytes "wkdata_mask") (u8 offset :: mask.take 32)

/-- `hgic_proc_set_wkdata_mask`: the two bytes of the offset are copied. -/
def hgicProcSetWkdataMask (user : User) (e : Endian) (sys : Sys) (ifname : List UInt8) (offset : Nat)
    (mask : List UInt8) : Run DoOut :=
  hgicIwprivSetBytes user e sys ifname (bytes "wkdata_mask") (bytes16 e offset ++ mask.take 16)

end TestApp

/-- What the driver sends for the buffer that a call of the tool writes. -/
def sentFor (env : WriteEnv) (call : User → Endian → Sys → Run DoOut) : Run (Option Msg) := do
  let o ← call ⟨true, true⟩ env.get.e env.sys
  (hgicfIwprivWrite env o.wrote).sent

def wkdataMaskMsg (ifidx offset : Nat) (mask : List UInt8) : Msg :=
  .cmd ifidx HgicCmd.setWkupdataMask (le16 offset ++ mask)

structure MasksArrive (env : WriteEnv) (ifname : List UInt8) (offset : Nat) (mask : List UInt8) : Prop where
  iwpriv : sentFor env (fun user e sys => TestApp.hgicIwprivSetWkdataMask user e sys ifname offset mask) =
    .ok (some (wkdataMaskMsg env.ifidx offset mask))
  proc : sentFor env (fun user e sys => TestApp.hgicProcSetWkdataMask user e sys ifname offset mask) =
    .ok (some (wkdataMaskMsg env.ifidx offset mask))

/-! ## The driver -/

theorem cells_behind (b : UInt8) (m : List UInt8) (n : Nat) (hn : n ≤ m.length) :
    cellsAt (b :: m) 1 n = .ok ((m.take n).map some) := by
  have hlen : n ≤ (m.map some).length := by rwa [List.length_map]
  unfold cellsAt
  rw [if_pos (by rw [List.length_cons]; omega), List.map_cons, List.cons_append, List.drop_one, List.tail_cons,
    List.take_append_of_le_length hlen, List.map_take]

theorem wkdataMask_sent {env : SetEnv} (hr : env.r.alloc = true) (ifidx : Nat) (b : UInt8) (m : List UInt8) :
    (·.sent) <$> hgicIwprivSetWkdataMask env ifidx (b :: m) =
      .ok (some (.cmd ifidx HgicCmd.setWkupdataMask (le16 (charVal env.plat b) ++ m.take 16))) := by
  have hsub : lenSub ((b :: m).take 128) 1 = .ok (min 127 m.length) := by
    have hlen : ((b :: m).take 128).length = min 127 m.length + 1 := by
      rw [List.length_take, List.length_cons]
      omega
    unfold lenSub
    rw [if_pos (by omega), hlen, Nat.add_sub_cancel]
  have hmask : m.take (min (min 127 m.length) 16) = m.take 16 := by
    rw [show min (min 127 m.length) 16 = min 16 m.length by omega, ← List.take_eq_take_min]
  have hlen : (le16 (charVal env.plat b) ++ m.take 16).length ≤ maxCmdLen := by
    rw [List.length_append, length_le16, List.length_take]
    unfold maxCmdLen
    omega
  obtain ⟨ret, hret⟩ := setCells_some hr ifidx HgicCmd.setWkupdataMask hlen
  have hcells := cells_behind b m (min (min 127 m.length) 16) (by omega)
  rw [hmask] at hcells
  have hbyte : byteAt (b :: m) 0 = .ok b := if_pos (Nat.zero_le _)
  unfold hgicIwprivSetWkdataMask
  simp only [hbyte, hsub, hcells, bind, Except.bind]
  rw [← List.map_append, hret]
  rfl

/-! ## The tool -/

theorem charVal_of_lt (plat : Plat) {b : UInt8} (h : b.toNat < 128) : charVal plat b = b.toNat := by
  unfold charVal toS8
  split
  · split
    · omega
    · omega
  · rfl

theorem charVal_u8 (plat : Plat) {n : Nat} (h : n < 128) : charVal plat (u8 n) = n := by
  have hn : (u8 n).toNat = n := by
    unfold u8
    rw [UInt8.toNat_ofNat']
    omega
  rw [charVal_of_lt plat (by omega), hn]

theorem bytes16_of_lt {n : Nat} (h : n < 128) : bytes16 .little n = [u8 n, 0] ∧ bytes16 .big n = [0, u8 n] := by
  have hhigh : n / 256 % 256 = 0 := by omega
  have hlow : ((n : Int) % 2 ^ 8).toNat = n % 256 := by omega
  unfold u8
  rw [hlow]
  simp only [bytes16, hhigh]
  exact ⟨rfl, rfl⟩

theorem le16_inj {x y : Nat} (hx : x < 2 ^ 16) (hy : y < 2 ^ 16) (h : le16 x = le16 y) : x = y := by
  unfold le16 bytes16 at h
  obtain ⟨h0, h1⟩ := List.cons_eq_cons.mp h
  have h0 := congrArg UInt8.toNat h0
  have h1 := congrArg UInt8.toNat (List.cons_eq_cons.mp h1).1
  simp only [UInt8.toNat_ofNat'] at h0 h1
  omega

theorem take_cons_eq_self_iff {b : UInt8} {l : List UInt8} {n : Nat} (h : l.length ≤ n) :
    (b :: l).take n = l ↔ l = List.replicate n b := by
  induction l generalizing b n with
  | nil =>
    cases n with
    | zero => exact iff_of_true rfl rfl
    | succ n => exact iff_of_false nofun nofun
  | cons c l ih =>
    cases n with
    | zero => exact absurd h (Nat.not_succ_le_zero _)
    | succ n =>
      rw [List.take_succ_cons, List.replicate_succ, List.cons_eq_cons, List.cons_eq_cons]
      constructor
      · rintro ⟨rfl, hl⟩
        exact ⟨rfl, (ih (Nat.le_of_succ_le_succ h)).mp hl⟩
      · rintro ⟨rfl, hl⟩
        exact ⟨rfl, (ih (Nat.le_of_succ_le_succ h)).mpr hl⟩

section Arrive
variable {env : WriteEnv} (henv : env.Succeeds) {ifname : List UInt8} (hif : ∀ b ∈ ifname, b ≠ 32 ∧ b ≠ 0)
  {offset : Nat} {mask : List UInt8}
include henv hif

/-- The value `b :: m`: the command fits, and the driver finds the offset in `b` and the mask behind it. -/
theorem delivered_mask_iff (b : UInt8) {m : List UInt8} (hm : m.length ≤ 128) :
    delivered env ifname .wkdataMask (b :: m) = .ok (some (wkdataMaskMsg env.ifidx offset mask)) ↔
      ifname.length + 18 ≤ 128 ∧ le16 (charVal env.set.plat b) = le16 offset ∧ m.take 16 = mask := by
  have hname : (bytes Setting.wkdataMask.row.1).length = 11 := rfl
  have hlen : (bytes Setting.wkdataMask.row.1 ++ 61 :: b :: m).length < 2 ^ 16 := by
    rw [List.length_append, List.length_cons, List.length_cons, hname]
    omega
  have hpos : 1 ≤ (b :: m).length := Nat.succ_pos _
  rw [delivered_iff henv hif .wkdataMask hpos hlen, hname]
  refine and_congr_right fun _ => ?_
  show (·.sent) <$> hgicIwprivSetWkdataMask env.set env.ifidx (b :: m) = _ ↔ _
  rw [wkdataMask_sent henv.cmd]
  unfold wkdataMaskMsg
  simp only [Except.ok.injEq, Option.some.injEq, Msg.cmd.injEq, true_and]
  constructor
  · exact fun h => List.append_inj h (by rw [length_le16, length_le16])
  · rintro ⟨ho, hmask⟩
    rw [ho, hmask]

theorem iwpriv_mask_arrives (hoff : offset < 128) (hmask : mask.length ≤ 16) :
    sentFor env (fun user e sys => TestApp.hgicIwprivSetWkdataMask user e sys ifname offset mask) =
      .ok (some (wkdataMaskMsg env.ifidx offset mask)) ↔ ifname.length + 18 ≤ 128 := by
  have htake : mask.take 32 = mask := List.take_of_length_le (by omega)
  show delivered env ifname .wkdataMask (u8 offset :: mask.take 32) = _ ↔ _
  rw [htake, delivered_mask_iff henv hif _ (by omega), charVal_u8 _ hoff]
  exact and_iff_left ⟨rfl, List.take_of_length_le hmask⟩

theorem proc_mask_arrives (hoff : offset < 128) (hmask : mask.length ≤ 16) :
    sentFor env (fun user e sys => TestApp.hgicProcSetWkdataMask user e sys ifname offset mask) =
        .ok (some (wkdataMaskMsg env.ifidx offset mask)) ↔
      ifname.length + 18 ≤ 128 ∧ (env.get.e = .little ∨ offset = 0) ∧ mask = List.replicate 16 0 := by
  have htake : mask.take 16 = mask := List.take_of_length_le hmask
  obtain ⟨hlittle, hbig⟩ := bytes16_of_lt hoff
  show delivered env ifname .wkdataMask (bytes16 env.get.e offset ++ mask.take 16) = _ ↔ _
  rw [htake]
  cases env.get.e with
  | little =>
    have hlen : (0 :: mask).length ≤ 128 := by
      rw [List.length_cons]
      omega
    rw [hlittle]
    show delivered env ifname .wkdataMask (u8 offset :: 0 :: mask) = _ ↔ _
    rw [delivered_mask_iff henv hif _ hlen, charVal_u8 _ hoff, take_cons_eq_self_iff hmask]
    exact and_congr_right fun _ => and_congr_left fun _ => iff_of_true rfl (.inl rfl)
  | big =>
    have hlen : (u8 offset :: mask).length ≤ 128 := by
      rw [List.length_cons]
      omega
    have hzero : charVal env.set.plat 0 = (0 : Nat) := charVal_of_lt _ (by decide)
    rw [hbig]
    show delivered env ifname .wkdataMask (0 :: u8 offset :: mask) = _ ↔ _
    rw [delivered_mask_iff henv hif _ hlen, hzero, take_cons_eq_self_iff hmask]
    refine and_congr_right fun _ => ?_
    constructor
    · rintro ⟨ho, hm⟩
      have h0 : offset = 0 := by
        have := le16_inj (by decide) (by omega) ho
        omega
      rw [h0] at hm
      exact ⟨.inr h0, hm⟩
    · rintro ⟨he, hm⟩
      have h0 : offset = 0 := he.resolve_left (by decide)
      rw [h0]
      exact ⟨rfl, hm⟩

/-- **Both functions**: the command fits, and the mask is 16 zeros, which a further zero in front does not change. -/
theorem masksArrive_iff (hoff : offset < 128) (hmask : mask.length ≤ 16) :
    MasksArrive env ifname offset mask ↔
      ifname.length + 18 ≤ 128 ∧ (env.get.e = .little ∨ offset = 0) ∧ mask = List.replicate 16 0 := by
  constructor
  · intro h
    exact (proc_mask_arrives henv hif hoff hmask).mp h.proc
  · intro h
    exact ⟨(iwpriv_mask_arrives henv hif hoff hmask).mpr h.1, (proc_mask_arrives henv hif hoff hmask).mpr h⟩

end Arrive

/-- A mask of 16 zeros. -/
theorem masksArrive_zeros : MasksArrive (calmEnv fun _ => 0) (bytes "hg0") 14 (List.replicate 16 0) :=
  (masksArrive_iff ⟨rfl, rfl, rfl, rfl, rfl⟩ (avoids_of_all (by decide)) (by decide) (by decide)).mpr
    ⟨by decide, .inl rfl, rfl⟩

/-- A mask of one byte: the device gets two, and the first is 0. -/
theorem proc_mask_shifted :
    sentFor (calmEnv fun _ => 0)
        (fun user e sys => TestApp.hgicProcSetWkdataMask user e sys (bytes "hg0") (14 : Nat) [0xff]) =
      .ok (some (.cmd 1 HgicCmd.setWkupdataMask (le16 (14 : Nat) ++ [0, 0xff]))) ∧
    ¬ MasksArrive (calmEnv fun _ => 0) (bytes "hg0") 14 [0xff] := by
  refine ⟨by decide +kernel, ?_⟩
  intro h
  have hzeros := ((proc_mask_arrives ⟨rfl, rfl, rfl, rfl, rfl⟩ (avoids_of_all (by decide)) (by decide)
    (by decide)).mp h.proc).2.2
  exact absurd hzeros (by decide)

end HgicFmac.Iwpriv
