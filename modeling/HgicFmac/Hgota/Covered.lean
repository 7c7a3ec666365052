import HgicFmac.Hgota.Device

/-!
# The image is covered by acknowledged fragments

The loop keeps no record of what was acknowledged: the next offset is 0 or what the last response of the station says.
Every offset it sends from is therefore 0 or the end of a fragment that was sent and acknowledged, and such a fragment
starts before its end, at an offset of the same kind.

* `Whole`, `Honest` : received frames are complete, and the station acknowledges only fragments of this session;
* `Linked s x` : `x` is 0 or the end of an acknowledged fragment;
* `covered_of_exit` : when the loop exits at the end of the image, every byte lies in an acknowledged fragment.
-/

namespace HgicFmac.Hgota
open Lib

/-- The frame holds the whole header, and the offset and the length when it is a response to a fragment. -/
def Whole (bs : List UInt8) : Prop :=
  16 ≤ bs.length ∧ (rxStype (Mem.ofList bs) = ethPOtaFwDataRespone → 30 ≤ bs.length)

/-- A response of the station that does not reject repeats the offset and the length of a fragment of this session.
It may come at any later time, any number of times or never, and any other frame may come instead. -/
def Honest (c : Session) (s : Loop) : Act → Prop
  | .recv (.frame bs) => Whole bs ∧ (Acks c.mac (Mem.ofList bs) bs.length →
    ∃ f ∈ s.sent, rxOff (Mem.ofList bs) = f.off ∧ rxLen (Mem.ofList bs) = f.len)
  | _ => True

instance (c : Session) (s : Loop) : (a : Act) → Decidable (Honest c s a)
  | .recv (.frame _) => inferInstanceAs (Decidable ((_ ∧ (_ → _)) ∧ (_ → _)))
  | .recv .timeout | .recv .error | .send _ => isTrue trivial

/-! ## What the loop reads of a whole frame -/

section Frame
variable {bs : List UInt8} (m : Mem)

theorem buf_frame {k : Nat} (hk : k < bs.length) (hk2 : k < rxbufSize) : (Recv.frame bs).buf m k = Mem.ofList bs k := by
  have hlen : k < (bs.take rxbufSize).length := by
    rw [List.length_take]
    omega
  show m.write 0 (bs.take rxbufSize) k = bs.getD k 0
  rw [write_zero m _ hlen, List.getD_eq_getElem?_getD, List.getD_eq_getElem?_getD, List.getElem?_take, if_pos hk2]

variable (h : 16 ≤ bs.length)
include h

theorem header_frame : rxSrc ((Recv.frame bs).buf m) = rxSrc (Mem.ofList bs) ∧
    rxProto ((Recv.frame bs).buf m) = rxProto (Mem.ofList bs) ∧
    rxStype ((Recv.frame bs).buf m) = rxStype (Mem.ofList bs) ∧
    rxStatus ((Recv.frame bs).buf m) = rxStatus (Mem.ofList bs) := by
  have hb : ∀ k < 16, (Recv.frame bs).buf m k = Mem.ofList bs k :=
    fun k hk => buf_frame m (Nat.lt_of_lt_of_le hk h) (Nat.lt_trans hk (by decide))
  refine ⟨?_, ?_, ?_, ?_⟩
  · simp only [rxSrc, Mac.mk.injEq]
    exact read_congr fun i _ hi => hb i (Nat.lt_trans hi (by decide))
  · exact load16_congr .big (hb 12 (by decide)) (hb 13 (by decide))
  · rw [rxStype, rxStype, hb 14 (by decide)]
  · rw [rxStatus, rxStatus, hb 15 (by decide)]

theorem len_frame : 0 < (Recv.frame bs).len := by
  simp only [Recv.len, List.length_take, rxbufSize]
  omega

theorem acks_frame (mac : Mac) :
    Acks mac ((Recv.frame bs).buf m) (Recv.frame bs).len ↔ Acks mac (Mem.ofList bs) bs.length := by
  obtain ⟨hsrc, hproto, hstype, hstatus⟩ := header_frame m h
  have hlen : 0 < (bs.length : Int) := by omega
  simp only [Acks, Answers, hsrc, hproto, hstype, hstatus, len_frame h, hlen]

omit h in
theorem off_frame (h : 30 ≤ bs.length) : rxOff ((Recv.frame bs).buf m) = rxOff (Mem.ofList bs) ∧
    rxLen ((Recv.frame bs).buf m) = rxLen (Mem.ofList bs) := by
  have hb : ∀ k < 30, (Recv.frame bs).buf m k = Mem.ofList bs k :=
    fun k hk => buf_frame m (Nat.lt_of_lt_of_le hk h) (Nat.lt_trans hk (by decide))
  refine ⟨?_, load16_congr .big (hb 28 (by decide)) (hb 29 (by decide))⟩
  simp only [rxOff, load32]
  rw [load16_congr .big (hb 20 (by decide)) (hb 21 (by decide)),
    load16_congr .big (hb 22 (by decide)) (hb 23 (by decide))]

end Frame

/-! ## The invariant -/

/-- `x` is 0 or the end of a fragment that was sent and acknowledged. -/
def Linked (s : Loop) (x : Nat) : Prop := x = 0 ∨ ∃ f ∈ s.sent, (f.off, f.len) ∈ s.acked ∧ x = f.off + f.len

theorem Linked.mono {s u : Loop} {x : Nat} (h : Linked s x) (hsent : ∀ f ∈ s.sent, f ∈ u.sent)
    (hacked : ∀ p ∈ s.acked, p ∈ u.acked) : Linked u x := by
  rcases h with h | ⟨f, hf, ha, hx⟩
  · exact .inl h
  · exact .inr ⟨f, hsent f hf, hacked _ ha, hx⟩

structure CoverInv (c : Session) (s : Loop) : Prop where
  wait : WaitInv c s
  off : Linked s s.otaOff
  sent : ∀ f ∈ s.sent, Linked s f.off ∧ 0 < f.len ∧ f.off + f.len ≤ c.info.totLen

theorem coverInv_init {c : Session} {t : Libota} {rxbuf : Mem} {s : Loop} (hin : InTable t c.mac)
    (h : hgicOtaDevice c t rxbuf = some s) : CoverInv c s := by
  obtain ⟨-, hoff, -, -, hsent, -⟩ := hgicOtaDevice_eq h
  refine ⟨waitInv_init hin h, .inl hoff, fun f hf => ?_⟩
  rw [hsent] at hf
  cases hf

section Step
variable {c : Session} {s u : Loop} {a : Act}

theorem coverInv_send (hi : CoverInv c s) (hg : s.goesOn c) {alloc : Bool} (hw : WaitInv c (sendHalf c s alloc)) :
    CoverInv c (sendHalf c s alloc) := by
  have hmono : ∀ {x}, Linked s x → Linked (sendHalf c s alloc) x :=
    fun hx => hx.mono (fun f hf => List.mem_append_left _ hf) fun p hp => hp
  refine ⟨hw, hmono hi.off, fun f hf => ?_⟩
  rcases sendHalf_sent hf with hf | ⟨hoff, hlen⟩
  · obtain ⟨hl, hpos, hle⟩ := hi.sent f hf
    exact ⟨hmono hl, hpos, hle⟩
  · have hle := (fragLen_le c s.otaOff).2
    have hlt := hg.1
    rw [hoff, hlen]
    exact ⟨hmono hi.off, fragLen_pos hg, by omega⟩

theorem coverInv_recv (hi : CoverInv c s) (hlt : c.info.totLen < 2 ^ 31) {r : Recv} (hpc : s.pc = .recv)
    (hh : Honest c s (.recv r)) (hw : WaitInv c (recvHalf c s r)) : CoverInv c (recvHalf c s r) := by
  have hack : ∀ p ∈ s.acked, p ∈ (recvHalf c s r).acked := by
    intro p hp
    show p ∈ if Acks c.mac (r.buf s.rxbuf) r.len then _ else _
    split
    · exact List.mem_append_left _ hp
    · exact hp
  have hmono : ∀ {x}, Linked s x → Linked (recvHalf c s r) x := fun hx => hx.mono (fun f hf => hf) hack
  refine ⟨hw, ?_, fun f hf => ?_⟩
  · rw [otaOff_recv hi.wait hpc r]
    by_cases ha : Acks c.mac (r.buf s.rxbuf) r.len
    · -- the frame is an acknowledgement of a fragment of this session
      rw [if_pos ha]
      cases r with
      | timeout => exact absurd ha.1.1 (by decide)
      | error => exact absurd ha.1.1 (by decide)
      | frame bs =>
        obtain ⟨⟨hlen, hresp⟩, hecho⟩ := hh
        have ha' := (acks_frame s.rxbuf hlen c.mac).mp ha
        obtain ⟨f, hf, hfo, hfl⟩ := hecho ha'
        obtain ⟨heq1, heq2⟩ := off_frame s.rxbuf (hresp ha'.1.2.2.1)
        have hle := (hi.sent f hf).2.2
        have hmem : (f.off, f.len) ∈ (recvHalf c s (.frame bs)).acked := by
          show _ ∈ if Acks c.mac ((Recv.frame bs).buf s.rxbuf) (Recv.frame bs).len then _ else _
          rw [if_pos ha, heq1, heq2, hfo, hfl]
          exact List.mem_append_right _ (List.mem_singleton.mpr rfl)
        refine .inr ⟨f, hf, hmem, ?_⟩
        rw [heq1, heq2, hfo, hfl]
        omega
    · rw [if_neg ha]
      exact .inl rfl
  · obtain ⟨hl, hpos, hle⟩ := hi.sent f hf
    exact ⟨hmono hl, hpos, hle⟩

theorem coverInv_step (hlt : c.info.totLen < 2 ^ 31) (hi : CoverInv c s) (hh : Honest c s a)
    (h : step c s a = some u) : CoverInv c u := by
  have hw := waitInv_step hi.wait h
  rcases step_cases h with ⟨alloc, -, -, hg, rfl⟩ | ⟨r, rfl, hpc, rfl⟩
  · exact coverInv_send hi hg hw
  · exact coverInv_recv hi hlt hpc hh hw

end Step

/-- Below a linked offset every byte lies in a fragment that was sent and acknowledged: by induction on the offset,
since the fragment that ends there starts earlier. -/
theorem covered_of_linked {c : Session} {s : Loop} (hi : CoverInv c s) {x : Nat} (hx : Linked s x) :
    ∀ b < x, ∃ f ∈ s.sent, (f.off, f.len) ∈ s.acked ∧ f.off ≤ b ∧ b < f.off + f.len := by
  induction x using Nat.strongRecOn with
  | ind x ih =>
    intro b hb
    rcases hx with rfl | ⟨f, hf, ha, rfl⟩
    · exact absurd hb (Nat.not_lt_zero b)
    · obtain ⟨hl, hpos, -⟩ := hi.sent f hf
      by_cases hlo : b < f.off
      · exact ih f.off (by omega) hl b hlo
      · exact ⟨f, hf, ha, by omega, hb⟩

theorem covered_of_exit (c : Session) (t : Libota) (rxbuf : Mem) (as : List Act) (s : Loop)
    (hin : InTable t c.mac) (hlt : c.info.totLen < 2 ^ 31) (hrun : otaRun c t rxbuf as = some s)
    (hh : OtaSteps c (Honest c) t rxbuf as) (hexit : c.info.totLen ≤ s.otaOff) :
    ∀ b < c.info.totLen, ∃ f ∈ s.sent, (f.off, f.len) ∈ s.acked ∧ f.off ≤ b ∧ b < f.off + f.len := by
  have hi : CoverInv c s :=
    otaRun_invariant (fun s h => coverInv_init hin h) (fun s a u => coverInv_step hlt) hh hrun
  intro b hb
  exact covered_of_linked hi hi.off b (Nat.lt_of_lt_of_le hb hexit)

/-- The first acknowledgement comes late, so the loop starts again at 0; then both fragments are acknowledged. -/
def lateAck : List Act :=
  [.send true, .recv .timeout, .send true, .recv (.frame (responseFrame (macOf 1) 0 0 1460)),
    .send true, .recv (.frame (responseFrame (macOf 1) 0 1460 540))]

theorem covered_lateAck :
    ∃ s, otaRun (upgrade 2000) oneStation (fun _ => 0) lateAck = some s ∧ s.otaOff = 2000 ∧
      ∀ b < 2000, ∃ f ∈ s.sent, (f.off, f.len) ∈ s.acked ∧ f.off ≤ b ∧ b < f.off + f.len := by
  obtain ⟨s, hr, hoff⟩ : ∃ s, otaRun (upgrade 2000) oneStation (fun _ => 0) lateAck = some s ∧ s.otaOff = 2000 :=
    ⟨_, rfl, by decide⟩
  have hh : OtaSteps (upgrade 2000) (Honest (upgrade 2000)) oneStation (fun _ => 0) lateAck := by
    intro s hs
    cases hs
    decide +kernel
  exact ⟨s, hr, hoff, covered_of_exit _ _ _ _ s inTable_oneStation (by decide) hr hh (by rw [hoff]; decide)⟩

end HgicFmac.Hgota
