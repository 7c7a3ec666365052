import HgicFmac.BusBytes.Model

/-!
# Which bytes of the bus come from stale memory

* `txPacket_eq` : a transfer is the packet and what lies behind it up to the rounded length;
* `blocks` : the sub-frames of an aggregate, each with the bytes of the buffer that its copy leaves alone;
  `aggTake_read` : an aggregate is its header and these;
* `takes`, `taken` : the packets that go into an aggregate, from their lengths;
* `Handover.Clean` : no length is rounded up, and every copy stays in its packet;
* `busBytes_determined_iff` : the transfers of a run do not depend on other memory exactly when all its handovers are
  clean.
-/

namespace HgicFmac.BusBytes
open Lib HgicFmac.Core

/-! ## A transfer -/

theorem read_write_add (m : Mem) (data : List UInt8) (k : Nat) :
    (m.write 0 data).read 0 (data.length + k) = data ++ m.read data.length k := by
  rw [read_add, read_write_self, Nat.zero_add, read_write_of_ge m data (Nat.le_of_eq (Nat.zero_add _))]

theorem txPacket_eq (bus : Bus) (aligned : Bool) (data : List UInt8) (tail bounce : Mem) :
    txPacket bus aligned data tail bounce =
      data ++ (if aligned then tail else bounce).read data.length (txLen bus data.length - data.length) := by
  have hlen : txLen bus data.length = data.length + (txLen bus data.length - data.length) := by
    have := le_txLen bus data.length
    omega
  unfold txPacket
  rw [hlen]
  cases aligned with
  | true =>
    rw [if_pos rfl, if_pos rfl, read_write_add, Nat.add_sub_cancel_left]
  | false =>
    rw [if_neg (by decide), if_neg (by decide), read_write_add, Nat.add_sub_cancel_left]

/-! ## The bytes of an aggregate -/

/-- What is copied for a frame. -/
def copyBytes (e : Endian) (f : Core.Frm) (cookie : Nat) : List UInt8 :=
  ((⟨f, subHdr e f cookie⟩ : Sub).skb.mem e).read 0 f.hdr.length

/-- The copies of the frames from `off` on, each with the bytes of the buffer up to the next one. -/
def blocks (e : Endian) (m : Mem) : Nat → List Core.Frm → Nat → List UInt8
  | _, [], _ => []
  | off, f :: fs, cookie => copyBytes e f cookie ++
      (m.read (off + f.hdr.length) (align4 f.hdr.length - f.hdr.length) ++
        blocks e m (off + align4 f.hdr.length) fs ((cookie + 1) % 2 ^ 16))

section Aggregate
variable {e : Endian} {ifAgg : Nat}

theorem length_copyBytes (f : Core.Frm) (cookie : Nat) : (copyBytes e f cookie).length = f.hdr.length :=
  length_read _ _ _

theorem length_blocks (m : Mem) (off : Nat) (fs : List Core.Frm) (cookie : Nat) :
    (blocks e m off fs cookie).length = alignedSum fs := by
  induction fs generalizing off cookie with
  | nil => rfl
  | cons f fs ih =>
    have hle := le_align4 f.hdr.length
    rw [blocks, List.length_append, List.length_append, length_copyBytes, length_read, ih, alignedSum_cons]
    omega

/-- One pass: the header but for its length field stays, the copy and the untouched bytes follow what was there. -/
theorem aggAdd_read {a : Agg} {f : Core.Frm} {m : Mem} (cookie : Nat) (h8 : hdrSize ≤ a.length e)
    (hm : ∀ i, a.length e ≤ i → a.mem i = m i) (hlt : a.length e + align4 f.hdr.length < 2 ^ 16) :
    let b := aggAdd e a f cookie
    b.length e = a.length e + align4 f.hdr.length ∧ (∀ i, b.length e ≤ i → b.mem i = m i) ∧
      b.mem.read 0 4 = a.mem.read 0 4 ∧ b.mem.read 6 (b.length e - 6) = a.mem.read 6 (a.length e - 6) ++
        (copyBytes e f cookie ++ m.read (a.length e + f.hdr.length) (align4 f.hdr.length - f.hdr.length)) := by
  have hle := le_align4 f.hdr.length
  have hcopy := @length_copyBytes e f cookie
  unfold hdrSize at h8
  intro b
  have hb : b.length e = a.length e + align4 f.hdr.length := by
    rw [aggAdd_length h8, Nat.mod_eq_of_lt hlt]
  have hmem : b.mem = (a.mem.write (a.length e) (copyBytes e f cookie)).write 4
      (bytes16 e ((a.length e + align4 f.hdr.length % 2 ^ 16) % 2 ^ 16)) := aggAdd_mem h8
  have h16 := length_bytes16 e ((a.length e + align4 f.hdr.length % 2 ^ 16) % 2 ^ 16)
  have hhigh : ∀ i, 6 ≤ i → b.mem i = a.mem.write (a.length e) (copyBytes e f cookie) i := by
    intro i hi
    rw [hmem, write_of_le _ _ (by omega)]
  have hend : ∀ i, a.length e + f.hdr.length ≤ i → b.mem i = m i := by
    intro i hi
    rw [hhigh i (by omega), write_of_le _ _ (by omega), hm i (by omega)]
  refine ⟨hb, fun i hi => hend i (by omega), ?_, ?_⟩
  · apply read_congr
    intro i _ hi
    rw [hmem, write_of_lt _ _ (by omega), write_of_lt _ _ (by omega)]
  · rw [show b.length e - 6 = (a.length e - 6) + (f.hdr.length + (align4 f.hdr.length - f.hdr.length)) by omega,
      read_add, read_add, show 6 + (a.length e - 6) = a.length e by omega]
    have hold : b.mem.read 6 (a.length e - 6) = a.mem.read 6 (a.length e - 6) := by
      apply read_congr
      intro i hi hi'
      rw [hhigh i hi, write_of_lt _ _ (by omega)]
    have hnew : b.mem.read (a.length e) f.hdr.length = copyBytes e f cookie := by
      have hself := read_write_self a.mem (a.length e) (copyBytes e f cookie)
      rw [hcopy] at hself
      rw [← hself]
      apply read_congr
      intro i hi _
      exact hhigh i (by omega)
    have hpad : b.mem.read (a.length e + f.hdr.length) (align4 f.hdr.length - f.hdr.length) =
        m.read (a.length e + f.hdr.length) (align4 f.hdr.length - f.hdr.length) := by
      apply read_congr
      intro i hi _
      exact hend i hi
    rw [hold, hnew, hpad]

theorem aggTake_read {a : Agg} {fs gs : List Core.Frm} {cookie : Nat} {m : Mem} (h8 : hdrSize ≤ a.length e)
    (hm : ∀ i, a.length e ≤ i → a.mem i = m i) (htake : (aggTake e ifAgg a (fs ++ gs) cookie).2 = gs)
    (hlt : a.length e + alignedSum fs < 2 ^ 16) :
    let b := (aggTake e ifAgg a (fs ++ gs) cookie).1
    b.length e = a.length e + alignedSum fs ∧ (∀ i, b.length e ≤ i → b.mem i = m i) ∧
      b.mem.read 0 4 = a.mem.read 0 4 ∧
      b.mem.read 6 (b.length e - 6) = a.mem.read 6 (a.length e - 6) ++ blocks e m (a.length e) fs cookie := by
  induction fs generalizing a cookie with
  | nil =>
    rw [List.nil_append] at htake ⊢
    rw [aggTake_nil htake]
    simp only [blocks, List.append_nil]
    exact ⟨rfl, hm, trivial, trivial⟩
  | cons f fs ih =>
    obtain ⟨-, heq⟩ := aggTake_cons htake
    rw [heq] at htake ⊢
    rw [alignedSum_cons] at hlt
    obtain ⟨hlen, hafter, hhead, hread⟩ := aggAdd_read cookie h8 hm (by omega : _ + align4 f.hdr.length < 2 ^ 16)
    obtain ⟨hlen', hafter', hhead', hread'⟩ := ih (by omega) hafter htake (by omega)
    refine ⟨?_, hafter', hhead'.trans hhead, ?_⟩
    · rw [hlen', hlen, alignedSum_cons, Nat.add_assoc]
    · rw [hread', hread, hlen, blocks, List.append_assoc, List.append_assoc]

end Aggregate

/-! ## The packets that are taken -/

/-- How many frames the loop takes after `len` bytes, from what it copies for each. -/
def takes (ifAgg : Nat) : Nat → List Nat → Nat
  | _, [] => 0
  | len, n :: ns => if len + align4 n ≤ ifAgg then takes ifAgg (len + align4 n) ns + 1 else 0

theorem aggTake_takes {e : Endian} {ifAgg : Nat} {a : Agg} {fs : List Core.Frm} {cookie : Nat}
    (h8 : hdrSize ≤ a.length e)
    (hlt : a.length e + alignedSum (fs.take (takes ifAgg (a.length e) (fs.map fun f => f.hdr.length))) < 2 ^ 16) :
    (aggTake e ifAgg a fs cookie).2 = fs.drop (takes ifAgg (a.length e) (fs.map fun f => f.hdr.length)) := by
  induction fs generalizing a cookie with
  | nil => rfl
  | cons f fs ih =>
    rw [aggTake, List.map_cons, takes]
    rw [List.map_cons, takes] at hlt
    by_cases hfit : a.length e + align4 f.hdr.length ≤ ifAgg
    · rw [if_pos hfit] at hlt ⊢
      rw [List.take_succ_cons, alignedSum_cons] at hlt
      have hlen : (aggAdd e a f cookie).length e = a.length e + align4 f.hdr.length := by
        rw [aggAdd_length h8, Nat.mod_eq_of_lt (by omega)]
      rw [if_pos (by simpa [aggFits] using hfit), List.drop_succ_cons, ih (by omega) (by rw [hlen]; omega), hlen]
    · rw [if_neg hfit, if_neg (by simpa [aggFits] using hfit), List.drop_zero]

theorem takes_lt {ifAgg len : Nat} (hagg : ifAgg < 2 ^ 16) (hlen : len < 2 ^ 16) (fs : List Core.Frm) :
    len + alignedSum (fs.take (takes ifAgg len (fs.map fun f => f.hdr.length))) < 2 ^ 16 := by
  induction fs generalizing len with
  | nil => exact hlen
  | cons f fs ih =>
    rw [List.map_cons, takes]
    split
    · rw [List.take_succ_cons, alignedSum_cons, ← Nat.add_assoc]
      exact ih (by omega)
    · exact hlen

/-- `cpylen` of a packet: its length with the header, as the field in memory reads in the order of the host. -/
def cpylen (cfg : Cfg) (p : Pkt) : Nat := cpuToLe16 cfg.e (hdrSize + p.payload.length)

/-- The packets of the queue that go into the aggregate. -/
def taken (cfg : Cfg) (ps : List Pkt) : List Pkt := ps.take (takes cfg.ifAgg hdrSize (ps.map (cpylen cfg)))

def aggLen (cfg : Cfg) (ps : List Pkt) : Nat := hdrSize + ((taken cfg ps).map fun p => align4 (cpylen cfg p)).sum

theorem lengths_frames (cfg : Cfg) (ps : List Pkt) :
    (frames cfg ps).map (fun f => f.hdr.length) = ps.map (cpylen cfg) := by
  rw [frames, List.map_map]
  rfl

theorem frames_taken (cfg : Cfg) (ps : List Pkt) :
    frames cfg (taken cfg ps) =
      (frames cfg ps).take (takes cfg.ifAgg hdrSize ((frames cfg ps).map fun f => f.hdr.length)) := by
  rw [lengths_frames, taken, frames, frames, List.map_take]

theorem aggLen_eq (cfg : Cfg) (ps : List Pkt) : aggLen cfg ps = hdrSize + alignedSum (frames cfg (taken cfg ps)) := by
  rw [aggLen, alignedSum, frames, List.map_map]
  rfl

/-- The header of an aggregate of `len` bytes: the one it starts with, with another length. -/
def headBytes (e : Endian) (cookie len : Nat) : List UInt8 :=
  let hdr := (aggInit e (fun _ => 0) cookie).mem.read 0 hdrSize
  hdr.take 4 ++ (bytes16 e len ++ hdr.drop 6)

theorem bytes16_load16 (e : Endian) (m : Mem) (off : Nat) : bytes16 e (load16 e m off) = m.read off 2 := by
  have h0 := (m off).toNat_lt
  have h1 := (m (off + 1)).toNat_lt
  have hread : m.read off 2 = [m off, m (off + 1)] := rfl
  cases e with
  | little =>
    simp only [hread, bytes16, load16, loadLe16]
    rw [show ((m off).toNat + 256 * (m (off + 1)).toNat) % 256 = (m off).toNat by omega,
      show ((m off).toNat + 256 * (m (off + 1)).toNat) / 256 % 256 = (m (off + 1)).toNat by omega]
    simp
  | big =>
    simp only [hread, bytes16, load16]
    rw [show (256 * (m off).toNat + (m (off + 1)).toNat) % 256 = (m (off + 1)).toNat by omega,
      show (256 * (m off).toNat + (m (off + 1)).toNat) / 256 % 256 = (m off).toNat by omega]
    simp

/-- A new aggregate: a header that does not depend on the buffer, and the buffer behind it. -/
theorem aggInit_read (e : Endian) (m : Mem) (cookie : Nat) :
    (aggInit e m cookie).mem.read 0 hdrSize = (aggInit e (fun _ => 0) cookie).mem.read 0 hdrSize := by
  apply read_congr
  intro i _ hi
  unfold hdrSize at hi
  simp only [aggInit, Mem.write, length_bytes]
  rw [if_pos (by omega), if_pos (by omega)]

/-- **The bytes of an aggregate**: its header, and the sub-frames with the bytes between them. -/
theorem txAggFrm_read (cfg : Cfg) (ps : List Pkt) (cookie : Nat) (buf : Mem) (hlt : aggLen cfg ps < 2 ^ 16) :
    let a := (hgicfTxAggFrm cfg.e cfg.ifAgg buf cookie (frames cfg ps)).1
    a.length cfg.e = aggLen cfg ps ∧ (∀ i, aggLen cfg ps ≤ i → a.mem i = buf i) ∧
      a.mem.read 0 (aggLen cfg ps) = headBytes cfg.e cookie (aggLen cfg ps) ++
        blocks cfg.e buf hdrSize (frames cfg (taken cfg ps)) ((cookie + 1) % 2 ^ 16) := by
  have hinit := aggInit_length cfg.e buf cookie
  have hinit8 : hdrSize ≤ (aggInit cfg.e buf cookie).length cfg.e := Nat.le_of_eq hinit.symm
  have hsum : (aggInit cfg.e buf cookie).length cfg.e + alignedSum (frames cfg (taken cfg ps)) < 2 ^ 16 := by
    rw [hinit, ← aggLen_eq]
    exact hlt
  have hbuf : ∀ i, (aggInit cfg.e buf cookie).length cfg.e ≤ i → (aggInit cfg.e buf cookie).mem i = buf i := by
    intro i hi
    rw [hinit] at hi
    exact write_of_le _ _ (by rw [length_bytes]; unfold hdrSize at hi; omega)
  obtain ⟨gs, hsplit, htake⟩ : ∃ gs, frames cfg ps = frames cfg (taken cfg ps) ++ gs ∧
      (aggTake cfg.e cfg.ifAgg (aggInit cfg.e buf cookie) (frames cfg ps) ((cookie + 1) % 2 ^ 16)).2 = gs := by
    refine ⟨_, ?_, aggTake_takes hinit8 ?_⟩
    · rw [hinit, frames_taken, List.take_append_drop]
    · rw [hinit, ← frames_taken, ← aggLen_eq]
      exact hlt
  rw [hsplit] at htake
  obtain ⟨hlen, hafter, hhead, hread⟩ := aggTake_read hinit8 hbuf htake hsum
  rw [← hsplit, hinit, ← aggLen_eq] at hlen
  rw [← hsplit] at hafter hhead hread
  intro a
  have hle : hdrSize ≤ aggLen cfg ps := by
    rw [aggLen]
    omega
  refine ⟨hlen, ?_, ?_⟩
  · intro i hi
    exact hafter i (by rw [hlen]; exact hi)
  · have hfield : a.mem.read 4 2 = bytes16 cfg.e (aggLen cfg ps) := by
      rw [← bytes16_load16]
      exact congrArg (bytes16 cfg.e) hlen
    have hinit0 := aggInit_read cfg.e buf cookie
    have hfour : a.mem.read 0 4 = ((aggInit cfg.e (fun _ => 0) cookie).mem.read 0 hdrSize).take 4 := by
      rw [← hinit0, show hdrSize = 4 + 4 from rfl, read_add, List.take_left' (length_read _ _ _)]
      exact hhead
    have hsix : (aggInit cfg.e buf cookie).mem.read 6 (hdrSize - 6) =
        ((aggInit cfg.e (fun _ => 0) cookie).mem.read 0 hdrSize).drop 6 := by
      rw [← hinit0, show hdrSize = 6 + 2 from rfl, read_add, List.drop_left' (length_read _ _ _)]
    have hrest : a.mem.read 6 (aggLen cfg ps - 6) = _ := hlen ▸ hread
    have hsum : aggLen cfg ps = 4 + (2 + (aggLen cfg ps - 6)) := by
      unfold hdrSize at hle
      omega
    have hall := read_add a.mem 0 4 (2 + (aggLen cfg ps - 6))
    rw [← hsum, read_add, hfour, hfield, hrest, hinit, hsix] at hall
    rw [hall, headBytes, List.append_assoc, List.append_assoc]

theorem busBytes_aggregate (cfg : Cfg) (aligned : Bool) (ps : List Pkt) (cookie : Nat) (buf bounce : Mem)
    (hlt : aggLen cfg ps < 2 ^ 16) :
    busBytes cfg (.aggregate aligned ps cookie buf bounce) =
      if hdrSize < aggLen cfg ps then
        (headBytes cfg.e cookie (aggLen cfg ps) ++
            blocks cfg.e buf hdrSize (frames cfg (taken cfg ps)) ((cookie + 1) % 2 ^ 16)) ++
          (if aligned then buf else bounce).read (aggLen cfg ps) (txLen cfg.bus (aggLen cfg ps) - aggLen cfg ps)
      else [] := by
  obtain ⟨hlen, hafter, hread⟩ := txAggFrm_read cfg ps cookie buf hlt
  simp only [busBytes, hlen]
  split
  · rw [txPacket_eq, length_read, hread]
    congr 1
    cases aligned with
    | true =>
      apply read_congr
      intro i hi _
      exact hafter i hi
    | false => rfl
  · rfl

/-! ## Clean handovers do not depend on other memory -/

/-- No transfer is longer than its packet; in an aggregate, whose length fits in its field, every copy ends on a
multiple of 4 and stays in its packet. -/
def Handover.Clean (cfg : Cfg) : Handover → Prop
  | .ready _ data _ _ => cfg.bus.Exact data.length
  | .single _ p _ _ _ => cfg.bus.Exact (hdrSize + p.payload.length)
  | .aggregate _ ps _ _ _ => aggLen cfg ps < 2 ^ 16 ∧ (hdrSize < aggLen cfg ps → cfg.bus.Exact (aggLen cfg ps)) ∧
      ∀ p ∈ taken cfg ps, 4 ∣ cpylen cfg p ∧ cpylen cfg p ≤ hdrSize + p.payload.length

instance (cfg : Cfg) (x : Handover) : Decidable (x.Clean cfg) :=
  match x with
  | .ready .. => inferInstanceAs (Decidable (Bus.Exact _ _))
  | .single .. => inferInstanceAs (Decidable (Bus.Exact _ _))
  | .aggregate .. => inferInstanceAs (Decidable (_ ∧ _ ∧ _))

theorem length_singleBytes (cfg : Cfg) (p : Pkt) (cookie : Nat) :
    (singleBytes cfg p cookie).length = hdrSize + p.payload.length := by
  rw [singleBytes, List.length_append, length_bytes, hdrSize]

theorem singleBytes_same (cfg : Cfg) {p q : Pkt} (h : SamePkt p q) (cookie : Nat) :
    singleBytes cfg q cookie = singleBytes cfg p cookie := by
  simp only [singleBytes, singleSub, xmitFrm, show p.payload = q.payload from h]

theorem txPacket_exact {bus : Bus} {data : List UInt8} (h : bus.Exact data.length) (aligned : Bool)
    (tail bounce : Mem) : txPacket bus aligned data tail bounce = data := by
  rw [txPacket_eq, (txLen_eq_iff bus data.length).mpr h, Nat.sub_self]
  exact List.append_nil data

theorem cpylen_same (cfg : Cfg) {ps qs : List Pkt} (h : List.Forall₂ SamePkt ps qs) :
    qs.map (cpylen cfg) = ps.map (cpylen cfg) := by
  induction h with
  | nil => rfl
  | cons h _ ih => rw [List.map_cons, List.map_cons, ih, cpylen, cpylen, show _ = _ from h]

theorem taken_same (cfg : Cfg) {ps qs : List Pkt} (h : List.Forall₂ SamePkt ps qs) :
    List.Forall₂ SamePkt (taken cfg ps) (taken cfg qs) := by
  rw [taken, taken, cpylen_same cfg h]
  exact List.forall₂_take _ h

theorem aggLen_same (cfg : Cfg) {ps qs : List Pkt} (h : List.Forall₂ SamePkt ps qs) :
    aggLen cfg qs = aggLen cfg ps := by
  have hmap := congrArg (List.map align4) (cpylen_same cfg (taken_same cfg h))
  rw [List.map_map, List.map_map] at hmap
  exact congrArg (fun l : List Nat => hdrSize + l.sum) hmap

/-- The header that a packet is copied with does not depend on the memory around it. -/
theorem subHdr_same (cfg : Cfg) {p q : Pkt} (h : SamePkt p q) (cookie : Nat) :
    subHdr cfg.e (xmitFrm cfg.e cfg.fwifidx q) cookie = subHdr cfg.e (xmitFrm cfg.e cfg.fwifidx p) cookie := by
  simp only [subHdr, xmitFrm, show p.payload = q.payload from h]

theorem copyBytes_eq (cfg : Cfg) (p : Pkt) (cookie : Nat) :
    copyBytes cfg.e (xmitFrm cfg.e cfg.fwifidx p) cookie =
      (Mem.ofList ((subHdr cfg.e (xmitFrm cfg.e cfg.fwifidx p) cookie).bytes cfg.e ++ p.payload ++ p.tail)).read 0
        (cpylen cfg p) := by
  simp only [copyBytes, Sub.skb, Frm.mem, xmitFrm, List.flatten_cons, List.flatten_nil, List.append_nil,
    List.append_assoc, cpylen]

theorem copyBytes_same (cfg : Cfg) {p q : Pkt} (h : SamePkt p q) (hle : cpylen cfg p ≤ hdrSize + p.payload.length)
    (cookie : Nat) : copyBytes cfg.e (xmitFrm cfg.e cfg.fwifidx q) cookie =
      copyBytes cfg.e (xmitFrm cfg.e cfg.fwifidx p) cookie := by
  have hq : cpylen cfg q = cpylen cfg p := by rw [cpylen, cpylen, show p.payload = q.payload from h]
  have hlen : cpylen cfg p ≤
      ((subHdr cfg.e (xmitFrm cfg.e cfg.fwifidx p) cookie).bytes cfg.e ++ p.payload).length := by
    rw [List.length_append, length_bytes]
    exact hle
  rw [copyBytes_eq, copyBytes_eq, hq, subHdr_same cfg h, ← show p.payload = q.payload from h,
    read_ofList _ (by rw [List.length_append]; omega), read_ofList _ (by rw [List.length_append]; omega),
    List.take_append_of_le_length hlen, List.take_append_of_le_length hlen]

theorem blocks_same (cfg : Cfg) {ps qs : List Pkt} (h : List.Forall₂ SamePkt ps qs)
    (hc : ∀ p ∈ ps, 4 ∣ cpylen cfg p ∧ cpylen cfg p ≤ hdrSize + p.payload.length) (m m' : Mem) (off cookie : Nat) :
    blocks cfg.e m' off (frames cfg qs) cookie = blocks cfg.e m off (frames cfg ps) cookie := by
  induction h generalizing off cookie with
  | nil => rfl
  | @cons p q ps qs hpq _ ih =>
    obtain ⟨h4, hle⟩ := hc p List.mem_cons_self
    have hp : (xmitFrm cfg.e cfg.fwifidx p).hdr.length = cpylen cfg p := rfl
    have hq : (xmitFrm cfg.e cfg.fwifidx q).hdr.length = cpylen cfg p := by
      simp only [xmitFrm, cpylen, show p.payload = q.payload from hpq]
    have hal := (align4_eq_iff _).mpr h4
    have ih := ih (fun r hr => hc r (List.mem_cons_of_mem p hr))
    rw [frames, List.map_cons, blocks, frames, List.map_cons, blocks, copyBytes_same cfg hpq hle, hp, hq, hal,
      Nat.sub_self]
    exact congrArg _ (ih _ _)

theorem determined_of_clean (cfg : Cfg) {x : Handover} (hx : x.Clean cfg) :
    Determined Handover.Same (busBytes cfg) x := by
  intro y hy
  cases hy with
  | ready aligned data tail bounce tail' bounce' =>
    simp only [busBytes]
    rw [txPacket_exact hx, txPacket_exact hx]
  | single aligned p q cookie tail bounce tail' bounce' h =>
    have hx : cfg.bus.Exact (singleBytes cfg p cookie).length := by
      rw [length_singleBytes]
      exact hx
    simp only [busBytes]
    rw [singleBytes_same cfg h, txPacket_exact hx, txPacket_exact hx]
  | aggregate aligned ps qs cookie buf bounce buf' bounce' h =>
    obtain ⟨hlt, hexact, hpkts⟩ := hx
    rw [busBytes_aggregate cfg aligned qs cookie buf' bounce' (by rw [aggLen_same cfg h]; exact hlt),
      busBytes_aggregate cfg aligned ps cookie buf bounce hlt, aggLen_same cfg h,
      blocks_same cfg (taken_same cfg h) hpkts buf buf']
    by_cases h8 : hdrSize < aggLen cfg ps
    · rw [if_pos h8, if_pos h8, (txLen_eq_iff _ _).mpr (hexact h8), Nat.sub_self]
      rfl
    · rw [if_neg h8, if_neg h8]

/-! ## Every other handover shows other memory -/

def flip (m : Mem) : Mem := fun i => m i + 1

/-- The packet with the byte behind its data changed. -/
def flipPkt (p : Pkt) : Pkt := { p with tail := [p.tail.getD 0 0 + 1] }

theorem byte_add_one_ne (b : UInt8) : b + 1 ≠ b := by
  intro h
  have := congrArg UInt8.toNat h
  have hlt := b.toNat_lt
  rw [UInt8.toNat_add, UInt8.toNat_one] at this
  omega

theorem eq_zero_of_flip {m : Mem} {off n : Nat} (h : (flip m).read off n = m.read off n) : n = 0 := by
  by_contra hn
  have h0 : 0 < n := Nat.pos_of_ne_zero hn
  have := getD_read (flip m) off h0
  rw [h, getD_read m off h0] at this
  exact byte_add_one_ne _ this.symm

theorem flip_ite (aligned : Bool) (tail bounce : Mem) :
    (if aligned then flip tail else flip bounce) = flip (if aligned then tail else bounce) := by
  cases aligned <;> rfl

theorem exact_of_flip {bus : Bus} {aligned : Bool} {data : List UInt8} {tail bounce : Mem}
    (h : txPacket bus aligned data (flip tail) (flip bounce) = txPacket bus aligned data tail bounce) :
    bus.Exact data.length := by
  rw [txPacket_eq, txPacket_eq, flip_ite, List.append_right_inj] at h
  have h0 := eq_zero_of_flip h
  have hle := le_txLen bus data.length
  exact (txLen_eq_iff bus data.length).mp (by omega)

theorem cpylen_le_of_flip {cfg : Cfg} {p : Pkt} {cookie : Nat}
    (h : copyBytes cfg.e (xmitFrm cfg.e cfg.fwifidx (flipPkt p)) cookie =
      copyBytes cfg.e (xmitFrm cfg.e cfg.fwifidx p) cookie) : cpylen cfg p ≤ hdrSize + p.payload.length := by
  by_contra hgt
  have hlt : hdrSize + p.payload.length < cpylen cfg p := by omega
  have hbyte : ∀ q : Pkt, SamePkt p q → (copyBytes cfg.e (xmitFrm cfg.e cfg.fwifidx q) cookie).getD
      (hdrSize + p.payload.length) 0 = q.tail.getD 0 0 := by
    intro q hq
    have hcp : cpylen cfg q = cpylen cfg p := by rw [cpylen, cpylen, show p.payload = q.payload from hq]
    rw [copyBytes_eq, hcp, getD_read _ _ hlt, Mem.ofList, Nat.zero_add]
    have hlen : ((subHdr cfg.e (xmitFrm cfg.e cfg.fwifidx q) cookie).bytes cfg.e ++ q.payload).length =
        hdrSize + p.payload.length := by
      rw [List.length_append, length_bytes, hdrSize, show p.payload = q.payload from hq]
    rw [List.getD_eq_getElem?_getD, List.getElem?_append_right (Nat.le_of_eq hlen), hlen, Nat.sub_self,
      ← List.getD_eq_getElem?_getD]
  have hp := hbyte p rfl
  have hf := hbyte (flipPkt p) rfl
  rw [h, hp] at hf
  exact byte_add_one_ne _ hf.symm

theorem clean_of_flip_blocks {cfg : Cfg} {ps : List Pkt} {m : Mem} {off cookie : Nat}
    (h : blocks cfg.e (flip m) off (frames cfg (ps.map flipPkt)) cookie = blocks cfg.e m off (frames cfg ps) cookie) :
    ∀ p ∈ ps, 4 ∣ cpylen cfg p ∧ cpylen cfg p ≤ hdrSize + p.payload.length := by
  induction ps generalizing off cookie with
  | nil =>
    intro p hp
    cases hp
  | cons p ps ih =>
    have hlen : (xmitFrm cfg.e cfg.fwifidx (flipPkt p)).hdr.length = (xmitFrm cfg.e cfg.fwifidx p).hdr.length := rfl
    rw [frames, List.map_cons, List.map_cons, blocks, frames, List.map_cons, blocks, hlen] at h
    obtain ⟨hcopy, h⟩ := List.append_inj h (by rw [length_copyBytes, length_copyBytes, hlen])
    obtain ⟨hpad, h⟩ := List.append_inj h (by rw [length_read, length_read])
    have h0 : align4 (cpylen cfg p) - cpylen cfg p = 0 := eq_zero_of_flip hpad
    have hle := le_align4 (cpylen cfg p)
    intro q hq
    rcases List.mem_cons.mp hq with rfl | hq
    · exact ⟨(align4_eq_iff _).mp (by omega), cpylen_le_of_flip hcopy⟩
    · exact ih h q hq

theorem forall₂_flip (ps : List Pkt) : List.Forall₂ SamePkt ps (ps.map flipPkt) := by
  induction ps with
  | nil => exact .nil
  | cons p ps ih => exact .cons rfl ih

theorem taken_flip (cfg : Cfg) (ps : List Pkt) : taken cfg (ps.map flipPkt) = (taken cfg ps).map flipPkt := by
  rw [taken, cpylen_same cfg (forall₂_flip ps), taken, List.map_take]

theorem aggLen_lt {cfg : Cfg} (hagg : cfg.ifAgg < 2 ^ 16) (ps : List Pkt) : aggLen cfg ps < 2 ^ 16 := by
  rw [aggLen_eq, frames_taken]
  exact takes_lt hagg (by decide) (frames cfg ps)

theorem clean_of_determined {cfg : Cfg} (hagg : cfg.ifAgg < 2 ^ 16) {x : Handover}
    (h : Determined Handover.Same (busBytes cfg) x) : x.Clean cfg := by
  cases x with
  | ready aligned data tail bounce => exact exact_of_flip (h _ (.ready _ _ _ _ (flip tail) (flip bounce)))
  | single aligned p cookie tail bounce =>
    have := exact_of_flip (h _ (.single _ p p _ _ _ (flip tail) (flip bounce) rfl))
    rw [length_singleBytes] at this
    exact this
  | aggregate aligned ps cookie buf bounce =>
    have hlt := aggLen_lt hagg ps
    have hsame := forall₂_flip ps
    have h := h _ (.aggregate _ _ _ _ _ _ (flip buf) (flip bounce) hsame)
    have hlen := aggLen_same cfg hsame
    rw [busBytes_aggregate cfg aligned _ cookie _ _ (by rw [hlen]; exact hlt),
      busBytes_aggregate cfg aligned ps cookie buf bounce hlt, hlen, taken_flip] at h
    by_cases h8 : hdrSize < aggLen cfg ps
    · rw [if_pos h8, if_pos h8, flip_ite, List.append_assoc, List.append_assoc, List.append_right_inj] at h
      obtain ⟨hblocks, hend⟩ := List.append_inj h (by
        rw [length_blocks, length_blocks, ← taken_flip, ← Nat.add_right_inj (n := hdrSize), ← aggLen_eq, hlen,
          aggLen_eq])
      have h0 := eq_zero_of_flip hend
      have hle := le_txLen cfg.bus (aggLen cfg ps)
      exact ⟨hlt, fun _ => (txLen_eq_iff _ _).mp (by omega), clean_of_flip_blocks hblocks⟩
    · -- nothing is taken but frames without a byte
      refine ⟨hlt, fun h => absurd h h8, ?_⟩
      intro p hp
      have hmem : align4 (cpylen cfg p) ∈ (taken cfg ps).map fun p => align4 (cpylen cfg p) :=
        List.mem_map_of_mem (f := fun p => align4 (cpylen cfg p)) hp
      have hsum := List.le_sum_of_mem hmem
      have hle := le_align4 (cpylen cfg p)
      rw [aggLen] at h8
      have h0 : cpylen cfg p = 0 := by omega
      rw [h0]
      exact ⟨Nat.dvd_zero 4, Nat.zero_le _⟩

/-- **What the bus shows**: whatever packets a run hands to the transmit path, their transfers do not depend on other
memory when every handover is clean, and only then as long as `if_agg` is below 65536. -/
theorem busBytes_determined_iff (cfg : Cfg) (run : List Handover) :
    ((∀ x ∈ run, x.Clean cfg) → Determined (List.Forall₂ Handover.Same) (List.map (busBytes cfg)) run) ∧
      (cfg.ifAgg < 2 ^ 16 → Determined (List.Forall₂ Handover.Same) (List.map (busBytes cfg)) run →
        ∀ x ∈ run, x.Clean cfg) := by
  rw [determined_map_iff Handover.Same.refl]
  constructor
  · intro hclean x hx
    exact determined_of_clean cfg (hclean x hx)
  · intro hagg hdet x hx
    exact clean_of_determined hagg (hdet x hx)

/-- An SDIO host on a little-endian machine, with aggregates of up to 256 bytes. -/
def sdioCfg : Cfg := ⟨.sdio, .little, 256, 1⟩

def evenPkt : Pkt := ⟨[1, 2, 3, 4], 0, [], by decide⟩

/-- A control packet of 8 bytes and two frames, alone and together. -/
def evenRun : List Handover :=
  [.ready true [1, 2, 3, 4, 5, 6, 7, 8] (fun _ => 0) (fun _ => 0), .single false evenPkt 0 (fun _ => 0) (fun _ => 0),
    .aggregate true [evenPkt, evenPkt] 1 (fun _ => 0) (fun _ => 0)]

theorem evenRun_determined :
    Determined (List.Forall₂ Handover.Same) (List.map (busBytes sdioCfg)) evenRun :=
  (busBytes_determined_iff sdioCfg evenRun).1 (by decide)

def oddPkt : Pkt := ⟨[6, 7, 8, 9, 10], 0, [], by decide⟩

/-- A control packet of 9 bytes at an aligned address, the same at another one, and an aggregate with a frame of
13 bytes. -/
def oddRun : List Handover :=
  [.ready true [1, 2, 3, 4, 5, 6, 7, 8, 9] (fun _ => 0) (fun _ => 0),
    .ready false [1, 2, 3, 4, 5, 6, 7, 8, 9] (fun _ => 0) (fun _ => 0),
    .aggregate true [oddPkt, evenPkt] 0 (fun _ => 0) (fun _ => 0)]

/-- The room behind the data, a bounce buffer and the buffer of an aggregate all reach the device. -/
theorem oddRun_not_determined : (¬ ∀ run : List Handover, Determined (List.Forall₂ Handover.Same)
    (List.map (busBytes sdioCfg)) run) ∧ ∀ x ∈ oddRun, ¬ Determined Handover.Same (busBytes sdioCfg) x := by
  have hodd : ∀ x ∈ oddRun, ¬ Determined Handover.Same (busBytes sdioCfg) x := by
    intro x hx hdet
    have hclean : ∀ y ∈ oddRun, ¬ y.Clean sdioCfg := by
      rw [oddRun, List.forall_mem_cons, List.forall_mem_cons, List.forall_mem_singleton]
      decide
    exact hclean x hx (clean_of_determined (by decide) hdet)
  refine ⟨?_, hodd⟩
  intro hall
  apply hodd _ List.mem_cons_self
  exact (determined_map_iff Handover.Same.refl oddRun).mp (hall oddRun) _ List.mem_cons_self

end HgicFmac.BusBytes
