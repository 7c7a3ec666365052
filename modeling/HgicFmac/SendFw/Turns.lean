import HgicFmac.SendFw.Call

/-!
# Several calls of `hgic_ota_send_fw`

* `AllOwned` : the queue and `fw_len` belong to the call that is under way; kept while `hgic_ota_parse_fw` is entered
  only when no other call is under way (`allOwned_step`);
* `send_fw_in_turn` : calls made one after another send their own fragments, stop at the first answer that is missing
  or an error, return 0 exactly when all fragments are acknowledged, and leave the queue empty;
* `own_packets_of_excl` : so it is for calls that do not overlap; two that do can send each other's packets
  (`own_packets_fails`).
-/

namespace HgicFmac.SendFw
open Lib Fwinfo

abbrev AllOwned (e : Endian) : Pool Ota Call → Prop :=
  Owned Call.idle Rest (fun c => Quiet e c.req c.sent c.pc) fun s c => Busy e s c.req c.sent c.pc

section Sent
variable {e : Endian} {s : Ota} {req : Request} {sent : List Event}

theorem Parsing.sentOk {fw : Image} {copyLen addrOffset k : Nat}
    (h : Parsing e s req sent fw copyLen addrOffset k) : SentOk e req sent := by
  rw [h.unsent]
  exact sentOk_nil e req

theorem sentOk_of_quiet {pc : Pc} (h : Quiet e req sent pc) (hpc : pc.idle = true) : SentOk e req sent := by
  cases pc with
  | returned ret => exact h.toSentOk
  | request =>
    rw [show sent = [] from h]
    exact sentOk_nil e req
  | setLen | readLen | alloc | fillTest | fillHdr | queue | top | deq | send | release => cases hpc

theorem sentOk_of_busy {pc : Pc} (h : Busy e s req sent pc) : SentOk e req sent := by
  cases pc with
  | request => exact h.elim
  | returned => exact h.elim
  | setLen | readLen =>
    rw [h.2.1]
    exact sentOk_nil e req
  | alloc =>
    obtain ⟨k, hk⟩ := h
    exact hk.sentOk
  | fillTest | fillHdr =>
    obtain ⟨-, -, k, hk⟩ := h
    exact hk.sentOk
  | queue =>
    obtain ⟨-, -, k, -, hk⟩ := h
    exact hk.sentOk
  | top | send =>
    obtain ⟨fw, hd⟩ := h
    exact hd.sentOk
  | deq =>
    obtain ⟨-, fw, hd⟩ := h
    exact hd.sentOk
  | release ret => exact h.toSentOk

end Sent

section Pool
variable {e : Endian} {p q : Pool Ota Call} {i : Nat}

theorem sentOk_of_owned (h : AllOwned e p) (hi : i < p.calls) : SentOk e (p.call i).req (p.call i).sent := by
  by_cases hid : (p.call i).idle
  · exact sentOk_of_quiet (h.quiet i hi hid) hid
  · exact sentOk_of_busy (h.active i hi hid)

theorem result_of_owned (h : AllOwned e p) (hi : i < p.calls) {ret : Int} (hpc : (p.call i).pc = .returned ret) :
    Result e (p.call i).req (p.call i).sent ret := by
  have hq := h.quiet i hi (by rw [Call.idle, hpc]; rfl)
  rwa [hpc] at hq

theorem allOwned_step {a : PoolAct Request Choice} (h : AllOwned e p) (ha : Excl Call.idle p a)
    (hq : otaStep e p a = some q) : AllOwned e q := by
  refine owned_step (fun req => ?_) (fun s c x r hc hr => ?_) h ha hq
  · exact ⟨show (beginCall req).idle from rfl, show Quiet e req [] .request from rfl⟩
  · exact alone_step hc hr

theorem allOwned_init (e : Endian) : AllOwned e otaInit where
  one i hi := absurd hi (Nat.not_lt_zero i)
  rest _ := rfl
  quiet i hi := absurd hi (Nat.not_lt_zero i)
  active i hi := absurd hi (Nat.not_lt_zero i)

/-! ## One call after another -/

theorem exists_returned {c : Call} (h : c.done) : ∃ ret, c.pc = .returned ret := by
  cases hpc : c.pc with
  | returned ret => exact ⟨ret, rfl⟩
  | request | setLen | readLen | alloc | fillTest | fillHdr | queue | top | deq | send | release =>
    rw [Call.done, hpc] at h
    cases h

theorem send_done {s : Ota} {c : Call} (x : Choice) (h : c.done) : hgicOtaSendFw e s c x = none := by
  obtain ⟨ret, hpc⟩ := exists_returned h
  unfold hgicOtaSendFw
  rw [hpc]

theorem idle_of_done {c : Call} (h : c.done) : c.idle := by
  obtain ⟨ret, hpc⟩ := exists_returned h
  rw [Call.idle, hpc]
  rfl

/-- A call that has not returned, among calls that are made one after another, is on its own. -/
theorem alone_of_turns (h : AllOwned e p) (ht : Turns Call.done p) (hi : i < p.calls) (hd : ¬ (p.call i).done) :
    Alone e p.shared (p.call i) :=
  h.solo hi (ht.excl (fun _ => idle_of_done) hi hd)

theorem turn_step {a : PoolAct Request Choice} (h : AllOwned e p ∧ Turns Call.done p) (ha : InTurn Call.done p a)
    (hq : otaStep e p a = some q) : AllOwned e q ∧ Turns Call.done q := by
  have hdone : ∀ (s : Ota) (c : Call) (x : Choice), c.done → hgicOtaSendFw e s c x = none := fun _ _ x => send_done x
  have hturns := turns_step hdone h.2 ha hq
  cases a with
  | start req => exact ⟨allOwned_step (a := .start req) h.1 trivial hq, hturns⟩
  | call i x =>
    obtain ⟨hi, r, hr, -⟩ := poolStep_call hq
    have hd : ¬ (p.call i).done := fun hd => by
      rw [send_done x hd] at hr
      cases hr
    exact ⟨allOwned_step (a := .call i x) h.1 (h.2.excl (fun _ => idle_of_done) hi hd) hq, hturns⟩

theorem turn_run {as : List (PoolAct Request Choice)} (ha : Steps (otaStep e) (InTurn Call.done) otaInit as)
    (hr : runFrom (otaStep e) otaInit as = some p) : AllOwned e p ∧ Turns Call.done p :=
  run_invariant (otaStep e) (fun _ _ _ => turn_step)
    ⟨allOwned_init e, fun i hi => absurd hi (Nat.not_lt_zero i)⟩ ha hr

theorem rest_of_return {a : PoolAct Request Choice} (h : AllOwned e p) (ht : Turns Call.done p) (hi : i < p.calls)
    (hq : otaStep e p a = some q) (hd : ¬ (p.call i).done) (hd' : (q.call i).done) : q.shared.fwDataq = [] := by
  cases a with
  | start req =>
    rw [poolStep_start hq] at hd'
    change ((p.setCall p.calls _).call i).done at hd'
    rw [Pool.setCall_of_ne p _ (by omega)] at hd'
    exact absurd hd' hd
  | call j x =>
    obtain ⟨hj, r, hr, rfl⟩ := poolStep_call hq
    change ((p.setCall j r.2).call i).done at hd'
    by_cases hij : i = j
    · subst hij
      rw [Pool.setCall_self] at hd'
      exact ((alone_step (alone_of_turns h ht hi hd) hr).1 (idle_of_done hd')).2
    · rw [Pool.setCall_of_ne p _ hij] at hd'
      exact absurd hd' hd

theorem reaches_returned (h : AllOwned e p) (ht : Turns Call.done p) (hi : i < p.calls) :
    Reaches (fun p x => otaStep e p (.call i x)) (fun p => (p.call i).done) p := by
  by_cases hd : (p.call i).done
  · intro _
    exact ⟨0, p, rfl, hd⟩
  · refine reaches_done (fun s c => c.pc.steps c.req s) (fun s c x hc => ?_) hi (alone_of_turns h ht hi hd)
    by_cases hd : c.done
    · exact .inl hd
    · obtain ⟨r, hr⟩ := alone_enabled hc hd
      exact .inr ⟨r, hr, alone_step hc hr, steps_lt hc hr⟩

end Pool

/-- On a little-endian host, for calls made one after another: a call with an image of `n` bytes, `n > 0`, has sent an
initial part of the fragments of the image, with their checksums; nothing follows an answer that is missing or an
error; the call returns, with 0 exactly when all fragments were sent and answered with `err_code` 0; and the queue is
empty when it returns. -/
theorem send_fw_in_turn {as : List (PoolAct Request Choice)} {p : Pool Ota Call}
    (ha : Steps (otaStep .little) (InTurn Call.done) otaInit as) (hr : runFrom (otaStep .little) otaInit as = some p)
    {i : Nat} (hi : i < p.calls) :
    (∀ fw, (p.call i).req = .ok fw → 0 < fw.size →
      sentFrags (p.call i).sent <+: frags fw ∧
      (∀ ret, (p.call i).pc = .returned ret → (ret = 0 ↔ Delivered fw (p.call i).sent))) ∧
    (∀ ev ∈ (p.call i).sent, ev.packet.checksum = hgicOtaCheckSum .little ev.packet.payload) ∧
    (∀ ev ∈ (p.call i).sent.dropLast, ev.ok) ∧
    Reaches (fun p x => otaStep .little p (.call i x)) (fun p => (p.call i).done) p ∧
    (∀ a q, otaStep .little p a = some q → ¬ (p.call i).done → (q.call i).done → q.shared.fwDataq = []) := by
  obtain ⟨howned, hturns⟩ := turn_run ha hr
  have hsent := sentOk_of_owned howned hi
  refine ⟨fun fw hfw hpos => ⟨hsent.initial fw hfw, fun ret hret => ?_⟩, fun ev hev => hsent.stamped ev hev rfl,
    hsent.stops, reaches_returned howned hturns hi, fun a q hq => rest_of_return howned hturns hi hq⟩
  have hres := result_of_owned howned hi hret
  constructor
  · intro h0
    obtain ⟨fw', hfw', hd⟩ := hres.zero h0
    obtain rfl : fw' = fw := Except.ok.inj (hfw'.symm.trans hfw)
    exact hd
  · intro hd
    by_contra h0
    exact hres.nonzero h0 fw hfw hpos hd

/-- The device with the ids 0 answers with `err_code` 0. -/
def answered : Choice := ⟨⟨0, 0, 0⟩, some fun _ => 0, some ⟨28, fun _ => 0⟩⟩

def unanswered : Choice := { answered with resp := none }

/-- A file without code, with the download address `addr`. -/
def plainImage (addr : Nat) : Image := { imageOf addr 131 0 [] with size_lt := show 131 < 2 ^ 32 by decide }

def runCall (i n : Nat) (x : Choice) : List (PoolAct Request Choice) := List.replicate n (.call i x)

/-- A call whose packet is not answered, then one whose packet is. -/
def twoTurns : List (PoolAct Request Choice) :=
  List.flatten [[.start (.ok (plainImage 0))], runCall 0 12 unanswered, [.start (.ok (plainImage 1))],
    runCall 1 13 answered]

theorem send_fw_in_turn_twoTurns : ∃ p, runFrom (otaStep .little) otaInit twoTurns = some p ∧
    (p.call 0).pc = .returned enodev ∧ (p.call 1).pc = .returned 0 ∧ Delivered (plainImage 1) (p.call 1).sent := by
  refine ⟨_, rfl, rfl, rfl, ?_⟩
  have h := @send_fw_in_turn twoTurns _ (by decide) rfl 1 (by decide)
  exact ((h.1 (plainImage 1) rfl (by decide)).2 0 rfl).mp rfl

/-! ## Calls that overlap -/

/-- The bytes, the offset and the length are those of the image. -/
def OfImage (fw : Image) (f : Frag) : Prop :=
  f.totLen = fw.size ∧ f.off + f.len ≤ fw.size ∧ f.payload = fw.data.read f.off f.len

/-- A call sends packets of its own image only, and has had all of them acknowledged when it returns 0. -/
def OwnPackets (p : Pool Ota Call) : Prop :=
  ∀ i < p.calls,
    (∀ ev ∈ (p.call i).sent, ∃ fw, (p.call i).req = .ok fw ∧ OfImage fw ev.packet.toFrag) ∧
    ((p.call i).pc = .returned 0 →
      ∃ fw, (p.call i).req = .ok fw ∧ ∀ f ∈ frags fw, ∃ ev ∈ (p.call i).sent, ev.packet.toFrag = f ∧ ev.ok)

theorem ofImage_of_mem {fw : Image} {f : Frag} (h : f ∈ frags fw) : OfImage fw f := by
  obtain ⟨i, hi, rfl⟩ := List.mem_map.mp h
  rw [List.mem_range, fragCount] at hi
  refine ⟨rfl, ?_, rfl⟩
  simp only [fragAt]
  omega

/-- In every run in which a call begins to parse its file only while no other call is under way, every packet that a
call sends is of its own image, and a call that returns 0 has had all fragments of it acknowledged. -/
theorem own_packets_of_excl {e : Endian} {as : List (PoolAct Request Choice)} {p : Pool Ota Call}
    (ha : Steps (otaStep e) (Excl Call.idle) otaInit as) (hr : runFrom (otaStep e) otaInit as = some p) :
    OwnPackets p := by
  have howned : AllOwned e p := run_invariant (otaStep e) (fun _ _ _ => allOwned_step) (allOwned_init e) ha hr
  intro i hi
  have hsent := sentOk_of_owned howned hi
  constructor
  · intro ev hev
    obtain ⟨fw, hfw⟩ := hsent.image (List.ne_nil_of_mem hev)
    exact ⟨fw, hfw, ofImage_of_mem ((hsent.initial fw hfw).subset (List.mem_map_of_mem hev))⟩
  · intro hret
    obtain ⟨fw, hfw, hall, hok⟩ := (result_of_owned howned hi hret).zero rfl
    refine ⟨fw, hfw, fun f hf => ?_⟩
    rw [← hall] at hf
    obtain ⟨ev, hev, rfl⟩ := List.mem_map.mp hf
    exact ⟨ev, hev, rfl, hok ev hev⟩

/-- The second writer opens the file while the first one sends, and goes on when the first one has returned. -/
def waitsForTurn : List (PoolAct Request Choice) :=
  List.flatten [[.start (.ok (plainImage 0))], runCall 0 9 answered, [.start (.ok (plainImage 1))],
    runCall 0 4 answered, runCall 1 13 answered]

theorem own_packets_of_excl_waitsForTurn : ∃ p, runFrom (otaStep .little) otaInit waitsForTurn = some p ∧
    (p.call 0).pc = .returned 0 ∧ (p.call 1).pc = .returned 0 ∧ OwnPackets p :=
  ⟨_, rfl, rfl, rfl, @own_packets_of_excl .little waitsForTurn _ (by decide) rfl⟩

/-- Both writers have queued their packet before the first one sends. -/
def bothQueued : List (PoolAct Request Choice) :=
  List.flatten [[.start (.ok (plainImage 0)), .start (.ok (plainImage 1))], runCall 0 8 answered, runCall 1 8 answered,
    runCall 0 6 answered]

/-- The first writer sends the packet of the second one. -/
theorem own_packets_fails :
    ¬ ∀ as p, runFrom (otaStep .little) otaInit as = some p → p.calls = 2 → OwnPackets p := by
  intro h
  have hsent := (h bothQueued _ rfl rfl 0 (by decide)).1 _ (List.mem_cons_of_mem _ List.mem_cons_self)
  obtain ⟨fw, hfw, -, -, hpay⟩ := hsent
  obtain rfl : plainImage 0 = fw := Except.ok.inj hfw
  exact absurd (congrArg (fun l => l.getD 4 0) hpay) (by decide +kernel)

end HgicFmac.SendFw
