import HgicFmac.Iwpriv.GetSafe
import Mathlib.Data.List.GetD

/-!
# Lists of records as texts

* `listReply` : the answer that consists of records; `getD_flatMap`, `recordBuf_listReply` : where its bytes lie;
* `StaInfo`, `StaInfo.width` : a station, and the characters of its line;
* `LinesFit` : no line of 81 characters starts at the last place where the loop prints one. `sta_text_fits_iff` : these
  are the lists of stations whose text stays in `print_buf`.
-/

namespace HgicFmac.Iwpriv
open Lib Fwctrl

section Answer
variable {α : Type} {record : Nat} {enc : α → List UInt8}

/-- The answer with the records `rs`, of `record` bytes each. -/
def listReply (record : Nat) (enc : α → List UInt8) (rs : List α) : Reply :=
  ⟨true, some ⟨record * rs.length, Mem.ofList (rs.flatMap enc)⟩⟩

theorem length_flatMap_records (henc : ∀ a, (enc a).length = record) (rs : List α) :
    (rs.flatMap enc).length = record * rs.length := by
  induction rs with
  | nil => rfl
  | cons a rs ih => rw [List.flatMap_cons, List.length_append, henc, ih, List.length_cons, Nat.mul_succ, Nat.add_comm]

theorem getD_flatMap (henc : ∀ a, (enc a).length = record) {rs : List α} {i k : Nat} (hi : i < rs.length)
    (hk : k < record) : (rs.flatMap enc).getD (record * i + k) 0 = (enc rs[i]).getD k 0 := by
  induction rs generalizing i with
  | nil => cases hi
  | cons a rs ih =>
    rw [List.flatMap_cons]
    cases i with
    | zero =>
      rw [Nat.mul_zero, Nat.zero_add, List.getD_append _ _ _ _ (by rwa [henc])]
      rfl
    | succ i =>
      have hge : record * (i + 1) + k = (enc a).length + (record * i + k) := by
        rw [henc, Nat.mul_succ]
        omega
      rw [hge, List.getD_append_right _ _ _ _ (Nat.le_add_right _ _), Nat.add_sub_cancel_left]
      exact ih (Nat.lt_of_succ_lt_succ hi)

section Reply
variable {env : GetEnv} {rs : List α} (hr : env.r = listReply record enc rs) (h : record * rs.length < 2 ^ 15)
include hr h

theorem status_listReply : env.status = (record * rs.length : Nat) := by
  simp only [GetEnv.status, hgicFwctrlDoCmd, hr, listReply, maxCmdLen, toS16]
  split_ifs <;> omega

theorem data_listReply (henc : ∀ a, (enc a).length = record) {cap : Nat} (hcap : record * rs.length ≤ cap) :
    env.data cap = rs.flatMap enc := by
  have hlen := length_flatMap_records henc rs
  have hs : toS16 (record * rs.length) = (record * rs.length : Nat) := by
    unfold toS16
    omega
  simp only [GetEnv.data, hgicFwctrlDoCmd, hr, listReply, maxCmdLen, hs, Int.toNat_natCast, Nat.min_eq_left hcap]
  rw [if_neg (by decide), if_pos trivial]
  dsimp only
  split
  · rw [← hlen, read_ofList _ (Nat.le_refl _), List.take_length]
  · next hpos =>
    rw [List.eq_nil_of_length_eq_zero (hlen.trans (by omega))]

theorem recordBuf_listReply (henc : ∀ a, (enc a).length = record) {cap : Nat} (hcap : record * rs.length ≤ cap)
    (req : List UInt8) {i k : Nat} (hi : i < rs.length) (hk : k < record) :
    recordBuf env req cap (record * i + k) = (enc rs[i]).getD k 0 := by
  have hlt : record * i + k < (rs.flatMap enc).length := by
    rw [length_flatMap_records henc]
    have := Nat.mul_le_mul_left record (Nat.succ_le_of_lt hi)
    rw [Nat.mul_succ] at this
    omega
  unfold recordBuf
  rw [data_listReply hr h henc hcap, write_zero _ _ hlt]
  exact getD_flatMap henc hi hk

end Reply

end Answer

theorem widthSum_eq {α : Type} {w : α → Nat} {width : Nat → Nat} {rs : List α} {k : Nat} (hk : k ≤ rs.length)
    (h : ∀ i (hi : i < rs.length), width i = w rs[i]) : widthSum width 0 k = ((rs.take k).map w).sum := by
  unfold widthSum
  congr 1
  apply List.ext_getElem
  · simp [hk]
  · intro i hi hi'
    have hlt : i < rs.length := by
      simp at hi
      omega
    simp [h i hlt]

/-! ## Stations -/

/-- `struct hgic_sta_info`; `ps` is the byte with the bit, the signed fields are by their bits. -/
structure StaInfo where
  aid : UInt8
  ps : UInt8
  addr : List UInt8
  len : addr.length = 6
  rssi : UInt8
  evm : UInt8
  txSnr : UInt8
  rxSnr : UInt8

def StaInfo.bytes (sta : StaInfo) : List UInt8 :=
  sta.aid :: sta.ps :: (sta.addr ++ [sta.rssi, sta.evm, sta.txSnr, sta.rxSnr])

theorem StaInfo.length_bytes (sta : StaInfo) : sta.bytes.length = 12 := by
  simp [StaInfo.bytes, sta.len]

def StaInfo.width (sta : StaInfo) : Nat :=
  62 + (dec sta.aid.toNat).length + (dec (toS8 sta.rssi.toNat)).length + (dec (toS8 sta.evm.toNat)).length +
    (dec (toS8 sta.txSnr.toNat)).length + (dec (toS8 sta.rxSnr.toNat)).length

abbrev staReply : List StaInfo → Reply := listReply 12 StaInfo.bytes

/-- The loop prints a line if at most 8111 characters lie before it; 81 more leave no place for the terminating 0. -/
def LinesFit (stas : List StaInfo) : Prop :=
  ∀ k (hk : k < stas.length), (dec stas.length).length + 7 + ((stas.take k).map StaInfo.width).sum = 8111 →
    stas[k].width ≤ 80

section Stations
variable {env : GetEnv} {req : List UInt8} {stas : List StaInfo} (hr : env.r = staReply stas)
  (hn : stas.length ≤ 341)
include hr hn

theorem staWidth_recordBuf {i : Nat} (hi : i < stas.length) :
    staWidth (recordBuf env req (341 * 12)) (12 * i) = stas[i].width := by
  have hbuf : ∀ k < 12, recordBuf env req (341 * 12) (12 * i + k) = stas[i].bytes.getD k 0 := fun k hk =>
    recordBuf_listReply hr (by omega) StaInfo.length_bytes (by omega) req hi hk
  have h0 := hbuf 0 (by decide)
  rw [Nat.add_zero] at h0
  have haddr := stas[i].len
  have htail : ∀ k < 4, stas[i].bytes.getD (8 + k) 0 =
      [stas[i].rssi, stas[i].evm, stas[i].txSnr, stas[i].rxSnr].getD k 0 := by
    intro k hk
    rw [show 8 + k = 6 + k + 1 + 1 by omega, StaInfo.bytes, List.getD_cons_succ, List.getD_cons_succ,
      List.getD_append_right _ _ _ _ (by omega), haddr, Nat.add_sub_cancel_left]
  unfold staWidth StaInfo.width s8At
  rw [h0, hbuf 8 (by decide), hbuf 9 (by decide), hbuf 10 (by decide), hbuf 11 (by decide), htail 0 (by decide),
    htail 1 (by decide), htail 2 (by decide), htail 3 (by decide)]
  rfl

theorem staText_length_lt_iff :
    (recordText stas.length " sta:\r\n" fun i =>
      staLine env.e (recordBuf env req (341 * 12)) (12 * i)).flatten.length < 8192 ↔ LinesFit stas := by
  have hmax := fun i => (staWidth_range (recordBuf env req (341 * 12)) (12 * i)).2
  have hwidth := fun i => staLine_length env.e (recordBuf env req (341 * 12)) (12 * i)
  have htitle : (dec (stas.length : Nat)).length ≤ 11 :=
    (dec_length_le_iff (k := 10) (by decide)).mpr ⟨by omega, by omega⟩
  have hhead : (dec stas.length ++ bytes " sta:\r\n").length = (dec stas.length).length + 7 := List.length_append
  show (List.flatten (_ :: _)).length < 8192 ↔ _
  rw [List.flatten_cons, List.length_append, hhead, recordLoop_fits hwidth hmax _ _ _ (by omega)]
  unfold LinesFit
  refine forall_congr' fun k => ⟨fun h hk hstart => ?_, fun h hk hstart => ?_⟩
  · rw [← widthSum_eq (Nat.le_of_lt hk) fun i hi => staWidth_recordBuf hr hn hi] at hstart
    have hw := h hk hstart
    rwa [Nat.zero_add, staWidth_recordBuf hr hn hk] at hw
  · rw [widthSum_eq (Nat.le_of_lt hk) fun i hi => staWidth_recordBuf hr hn hi] at hstart
    rw [Nat.zero_add, staWidth_recordBuf hr hn hk]
    exact h hk hstart

theorem getStaList_texts (hk : env.kmem = true) (hf : getFormat (req.take 64) % 2 ^ 32 ≠ 1) :
    (∀ u ∈ (hgicIwprivGetStaList env req).texts, u.used ≤ u.size) ↔ LinesFit stas := by
  have hstatus := status_listReply hr (by omega)
  have hcount : (if 0 < env.status then env.status / 12 else env.status) = (stas.length : Nat) := by
    rw [hstatus]
    split <;> omega
  unfold hgicIwprivGetStaList
  rw [if_neg (not_not.mpr hk)]
  dsimp only
  rw [if_neg hf, hcount, Int.toNat_natCast]
  by_cases hpos : 0 < (stas.length : Int)
  · rw [if_pos hpos]
    exact List.forall_mem_singleton.trans (staText_length_lt_iff hr hn)
  · rw [if_neg hpos]
    exact iff_of_true nofun fun k hlt => absurd hlt (by omega)

end Stations

/-- For at most 341 stations: the text and its terminating 0 stay in `print_buf` exactly when no line of 81 characters
starts behind 8111 characters. -/
theorem sta_text_fits_iff (env : GetEnv) (req : List UInt8) (stas : List StaInfo) (hr : env.r = staReply stas)
    (hn : stas.length ≤ 341) : (∀ u ∈ (hgicIwprivGetStaList env req).texts, u.used ≤ u.size) ↔
      (env.kmem = true → getFormat (req.take 64) % 2 ^ 32 ≠ 1 → LinesFit stas) := by
  by_cases hk : env.kmem = true
  · rw [forall_prop_of_true hk]
    by_cases hf : getFormat (req.take 64) % 2 ^ 32 = 1
    · refine iff_of_true ?_ fun h => absurd hf h
      unfold hgicIwprivGetStaList
      rw [if_neg (not_not.mpr hk), if_pos hf]
      exact nofun
    · rw [forall_prop_of_true hf]
      exact getStaList_texts hr hn hk hf
  · refine iff_of_true ?_ fun h => absurd h hk
    unfold hgicIwprivGetStaList
    rw [if_pos hk]
    exact nofun

/-- A request for a list as a text. -/
def textRequest (name : String) : List UInt8 := bytes name ++ List.replicate 24 0

def staRequest : List UInt8 := textRequest "sta_list"

def answer (r : Reply) : GetEnv := ⟨.little, true, r, true, fun _ => 0, fun _ => 0, []⟩

def longSta (aid : UInt8) : StaInfo := ⟨aid, 0, List.replicate 6 255, rfl, 128, 128, 128, 128⟩

theorem sta_text_fits_iff_one : (∀ u ∈ (hgicIwprivGetStaList (answer (staReply [longSta 1])) staRequest).texts,
    u.used ≤ u.size) ↔ (true = true → getFormat (staRequest.take 64) % 2 ^ 32 ≠ 1 → LinesFit [longSta 1]) :=
  sta_text_fits_iff (answer (staReply [longSta 1])) staRequest [longSta 1] rfl (by decide)

/-- 102 stations: the last line starts behind 8111 characters and has 81. -/
def farStas : List StaInfo := List.replicate 80 (longSta 50) ++ List.replicate 22 (longSta 200)

theorem sta_text_fits_fails :
    ¬ ∀ u ∈ (hgicIwprivGetStaList (answer (staReply farStas)) staRequest).texts, u.used ≤ u.size := by
  rw [getStaList_texts rfl (by decide) rfl (by decide)]
  intro h
  have hwidth : (longSta 200).width ≤ 80 := h 101 (by decide) (by decide)
  exact absurd hwidth (by decide)

end HgicFmac.Iwpriv
