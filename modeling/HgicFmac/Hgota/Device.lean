import HgicFmac.Hgota.Libota
import HgicFmac.Lib.Run

/-!
# The upgrade loop of `hgic_ota_device`

An iteration sends a fragment, waits for one frame and reads the offset for the next iteration from the table.

* `Session`, `Loop`, `step` : the arguments, the state and the two halves of an iteration; the loop has exited when
  no half is enabled. As history the state keeps the fragments handed to `send`, the fragments acknowledged, the
  offset of the last fragment while it is unanswered, the highest offset so far (`best`), the number of iterations
  since it grew (`idle`) and of all iterations;
* `step_cases`, `entry_send`, `entry_recv` : what the halves do; `WaitInv` : the station keeps its entry, whose offset
  is 0 while the loop waits;
* `otaRun`, `OtaSteps`, `otaRun_invariant` : runs from the start of the loop.
-/

namespace HgicFmac.Hgota
open Lib

structure Session where
  host : Host
  mac : Mac
  info : FwInfo
  /-- The memory at `fwdata`. -/
  fwdata : Mem

/-- The result of `hgic_sock_recv`: 0 after the timeout, -1, or a frame of the network. -/
inductive Recv
  | timeout
  | error
  | frame (bs : List UInt8)

def rxbufSize : Nat := 2048

def Recv.len : Recv → Int
  | .timeout => 0
  | .error => -1
  | .frame bs => ((bs.take rxbufSize).length : Nat)

/-- The receive buffer: behind the frame it keeps its old contents. -/
def Recv.buf (m : Mem) : Recv → Mem
  | .frame bs => m.write 0 (bs.take rxbufSize)
  | _ => m

inductive Pc
  | send | recv
  deriving DecidableEq, Repr

structure Loop where
  t : Libota
  rxbuf : Mem
  otaOff : Nat
  retry : Nat
  pc : Pc
  sent : List FwData
  acked : List (Nat × Nat)
  frag : Option Nat
  best : Nat
  idle : Nat
  iters : Nat

/-- The state before the loop. Nothing is sent when the station already runs the version of the image. -/
def hgicOtaDevice (c : Session) (t : Libota) (rxbuf : Mem) : Option Loop :=
  if (libotaFindSta t c.mac).bind (fun i => t.stas[i]?.map (·.svnVersion)) = some c.info.svnVersion then none
  else some
    { t := t
      rxbuf := rxbuf
      otaOff := 0
      retry := 0
      pc := .send
      sent := []
      acked := []
      frag := none
      best := 0
      idle := 0
      iters := 0 }

def fragLen (c : Session) (off : Nat) : Nat := if 1460 < c.info.totLen - off then 1460 else c.info.totLen - off

/-- `while (ota_off < fwinfo.tot_len && retry < 10)`. -/
def Loop.goesOn (c : Session) (s : Loop) : Prop := s.otaOff < c.info.totLen ∧ s.retry < 10

instance (c : Session) (s : Loop) : Decidable (s.goesOn c) := inferInstanceAs (Decidable (_ ∧ _))

/-- `libota_send_fw_data`. -/
def sendHalf (c : Session) (s : Loop) (alloc : Bool) : Loop :=
  let r := libotaSendFwData c.host s.t c.mac c.info s.otaOff (c.fwdata.read s.otaOff (fragLen c s.otaOff)) alloc
  { s with t := r.1, pc := .recv, sent := s.sent ++ r.2.toList, frag := r.2.map (·.off) }

/-- `rx_len > 0 && libota_rx_proc(hgOTA.rxbuf, rx_len)`, where `rx_len` is unsigned. -/
def rxFrame (c : Session) (s : Loop) (r : Recv) : Status × Libota :=
  if 0 < r.len % 2 ^ 32 then libotaRxProc c.host s.t (r.buf s.rxbuf) r.len else (.none, s.t)

/-- The received frame and `libota_sta_nexoff`. -/
def recvHalf (c : Session) (s : Loop) (r : Recv) : Loop :=
  let m := r.buf s.rxbuf
  let x := rxFrame c s r
  let off := libotaStaNexoff x.2 c.mac
  { t := x.2
    rxbuf := m
    otaOff := off
    retry := if x.1 = .fwStatus then 0 else s.retry + 1
    pc := .send
    sent := s.sent
    acked := if Acks c.mac m r.len then s.acked ++ [(rxOff m, rxLen m)] else s.acked
    frag := if Answers c.mac m r.len then none else s.frag
    best := max s.best off
    idle := if s.best < off then 0 else s.idle + 1
    iters := s.iters + 1 }

inductive Act
  | send (alloc : Bool)
  | recv (r : Recv)

def step (c : Session) (s : Loop) : Act → Option Loop
  | .send alloc => if s.pc = .send ∧ s.goesOn c then some (sendHalf c s alloc) else none
  | .recv r => if s.pc = .recv then some (recvHalf c s r) else none

/-- The state after the actions `as` of a run of `hgic_ota_device`. -/
def otaRun (c : Session) (t : Libota) (rxbuf : Mem) (as : List Act) : Option Loop :=
  (hgicOtaDevice c t rxbuf).bind fun s => runFrom (step c) s as

/-- Every action of the run is taken in a state where `P` allows it. -/
def OtaSteps (c : Session) (P : Loop → Act → Prop) (t : Libota) (rxbuf : Mem) (as : List Act) : Prop :=
  ∀ s, hgicOtaDevice c t rxbuf = some s → Steps (step c) P s as

/-! ## What a step does -/

section Step
variable {c : Session} {s u : Loop} {a : Act}

theorem step_cases (h : step c s a = some u) :
    (∃ alloc, a = .send alloc ∧ s.pc = .send ∧ s.goesOn c ∧ u = sendHalf c s alloc) ∨
      (∃ r, a = .recv r ∧ s.pc = .recv ∧ u = recvHalf c s r) := by
  cases a with
  | send alloc =>
    obtain ⟨hg, hu⟩ := Option.ite_none_right_eq_some.mp h
    exact .inl ⟨alloc, rfl, hg.1, hg.2, (Option.some.inj hu).symm⟩
  | recv r =>
    obtain ⟨hg, hu⟩ := Option.ite_none_right_eq_some.mp h
    exact .inr ⟨r, rfl, hg, (Option.some.inj hu).symm⟩

/-- The test of `rx_len` does not matter: `libota_rx_proc` does nothing for the lengths it excludes. -/
theorem rxFrame_eq (c : Session) (s : Loop) (r : Recv) :
    rxFrame c s r = libotaRxProc c.host s.t (r.buf s.rxbuf) r.len := by
  unfold rxFrame
  split
  · rfl
  · next hn =>
    have hle : r.len ≤ 0 := by
      cases r with
      | timeout => exact Int.le_refl 0
      | error => decide
      | frame bs =>
        have hlen : (bs.take rxbufSize).length ≤ rxbufSize := List.length_take_le rxbufSize bs
        simp only [Recv.len, rxbufSize] at hn hlen ⊢
        omega
    unfold libotaRxProc
    rw [if_pos hle]

theorem fragLen_pos (h : s.goesOn c) : 0 < fragLen c s.otaOff := by
  have hlt := h.1
  unfold fragLen
  split <;> omega

theorem fragLen_le (c : Session) (off : Nat) : fragLen c off ≤ 1460 ∧ fragLen c off ≤ c.info.totLen - off := by
  unfold fragLen
  split <;> omega

theorem sendHalf_sent {alloc : Bool} {f : FwData} (hf : f ∈ (sendHalf c s alloc).sent) :
    f ∈ s.sent ∨ (f.off = s.otaOff ∧ f.len = fragLen c s.otaOff) := by
  rcases List.mem_append.mp hf with h | h
  · exact .inl h
  · cases alloc with
    | false => cases h
    | true =>
      have hlen := (fragLen_le c s.otaOff).1
      rw [List.mem_singleton.mp h]
      refine .inr ⟨rfl, ?_⟩
      show (c.fwdata.read s.otaOff (fragLen c s.otaOff)).length % 2 ^ 16 = _
      rw [length_read]
      omega

/-- In the first half the offset in the entry of the station becomes 0, in the second one the end of the fragment
that the station acknowledges. -/
theorem entry_send {i : Nat} {sta : Sta} (he : Entry s.t c.mac i sta) (alloc : Bool) :
    Entry (sendHalf c s alloc).t c.mac i { sta with nextOff := 0 } :=
  he.send c.host c.info s.otaOff (c.fwdata.read s.otaOff (fragLen c s.otaOff)) alloc

theorem entry_recv {i : Nat} {sta : Sta} (he : Entry s.t c.mac i sta) (hon : sta.online = true) (r : Recv) :
    ∃ sta', Entry (recvHalf c s r).t c.mac i sta' ∧ sta'.online = true ∧ (recvHalf c s r).otaOff = sta'.nextOff ∧
      sta'.nextOff = if Acks c.mac (r.buf s.rxbuf) r.len then
        (rxOff (r.buf s.rxbuf) + rxLen (r.buf s.rxbuf)) % 2 ^ 32 else sta.nextOff := by
  obtain ⟨sta', he', hon', hoff⟩ := he.rxProc hon c.host (r.buf s.rxbuf) r.len
  rw [← rxFrame_eq c s r] at he'
  exact ⟨sta', he', hon', he'.nexoff, hoff⟩

/-- The station has its entry, whose offset is 0 while the loop waits for a frame. -/
def WaitInv (c : Session) (s : Loop) : Prop :=
  ∃ i sta, Entry s.t c.mac i sta ∧ sta.online = true ∧ (s.pc = .recv → sta.nextOff = 0)

theorem waitInv_step (hw : WaitInv c s) (h : step c s a = some u) : WaitInv c u := by
  obtain ⟨i, sta, he, hon, -⟩ := hw
  rcases step_cases h with ⟨alloc, -, -, -, rfl⟩ | ⟨r, -, -, rfl⟩
  · exact ⟨i, _, entry_send he alloc, hon, fun _ => rfl⟩
  · obtain ⟨sta', he', hon', -⟩ := entry_recv he hon r
    exact ⟨i, sta', he', hon', nofun⟩

theorem otaOff_recv (hw : WaitInv c s) (hpc : s.pc = .recv) (r : Recv) :
    (recvHalf c s r).otaOff = if Acks c.mac (r.buf s.rxbuf) r.len then
      (rxOff (r.buf s.rxbuf) + rxLen (r.buf s.rxbuf)) % 2 ^ 32 else 0 := by
  obtain ⟨i, sta, he, hon, hz⟩ := hw
  obtain ⟨sta', -, -, hoff, hnext⟩ := entry_recv he hon r
  rw [hoff, hnext, hz hpc]

end Step

theorem hgicOtaDevice_eq {c : Session} {t : Libota} {rxbuf : Mem} {s : Loop} (h : hgicOtaDevice c t rxbuf = some s) :
    s.t = t ∧ s.otaOff = 0 ∧ s.retry = 0 ∧ s.pc = .send ∧ s.sent = [] ∧ s.frag = none ∧ s.best = 0 ∧ s.idle = 0 ∧
      s.iters = 0 := by
  obtain ⟨-, h⟩ := Option.ite_none_left_eq_some.mp h
  cases Option.some.inj h
  exact ⟨rfl, rfl, rfl, rfl, rfl, rfl, rfl, rfl, rfl⟩

theorem waitInv_init {c : Session} {t : Libota} {rxbuf : Mem} {s : Loop} (hin : InTable t c.mac)
    (h : hgicOtaDevice c t rxbuf = some s) : WaitInv c s := by
  obtain ⟨ht, -, -, hpc, -⟩ := hgicOtaDevice_eq h
  obtain ⟨i, sta, he, hon⟩ := hin
  refine ⟨i, sta, ht ▸ he, hon, fun hr => ?_⟩
  rw [hpc] at hr
  cases hr

theorem otaRun_invariant {c : Session} {P : Loop → Act → Prop} {Inv : Loop → Prop} {t : Libota} {rxbuf : Mem}
    {as : List Act} {u : Loop} (hinit : ∀ s, hgicOtaDevice c t rxbuf = some s → Inv s)
    (hstep : ∀ s a u, Inv s → P s a → step c s a = some u → Inv u) (hs : OtaSteps c P t rxbuf as)
    (h : otaRun c t rxbuf as = some u) : Inv u := by
  obtain ⟨s, h0, h⟩ := Option.bind_eq_some_iff.mp h
  exact run_invariant (step c) hstep (hinit s h0) (hs s h0) h

/-- The bytes of a response to a fragment, up to its length field. -/
def responseFrame (src : Mac) (status : UInt8) (off len : Nat) : List UInt8 :=
  List.flatten [zeroMac.bytes, src.bytes, bytes16 .big ethPOta, [UInt8.ofNat ethPOtaFwDataRespone, status],
    List.replicate 4 0, bytes32 .big off, List.replicate 4 0, bytes16 .big len]

def macOf (b : UInt8) : Mac := ⟨List.replicate 6 b, rfl⟩

/-- A table with the station `macOf 1`. -/
def oneStation : Libota := libotaInit.modify 0 fun sta => { sta with addr := macOf 1, online := true }

theorem inTable_oneStation : InTable oneStation (macOf 1) := ⟨0, _, ⟨rfl, rfl⟩, rfl⟩

/-- An upgrade of the station `macOf 1` with an image of `totLen` bytes. -/
def upgrade (totLen : Nat) : Session := ⟨⟨.little, true⟩, macOf 1, ⟨0, 0, 1, totLen⟩, fun _ => 0⟩

end HgicFmac.Hgota
