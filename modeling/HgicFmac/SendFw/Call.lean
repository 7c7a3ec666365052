import HgicFmac.SendFw.Model

/-!
# One call of `hgic_ota_send_fw` on its own

* `Stamped`, `Delivered`, `SentOk`, `Result` : the checksum of a packet, an image that is sent and acknowledged
  throughout, what a call has sent at any time, and what its result says;
* `Parsing` : the queue in the loop of `hgic_ota_parse_fw`, after `k` fragments;
* `Draining` : the queue while it is sent;
* `SendCase`, `send_cases` : everything that one step does;
* `Alone` : what holds of a call that has the queue and `fw_len` for itself, kept by its steps (`alone_step`);
* `alone_enabled`, `steps_lt` : such a call takes steps until it has returned, at most `Pc.steps`.
-/

namespace HgicFmac.SendFw
open Lib Fwinfo

theorem errNe_checkHdrInfo (e : Endian) (info : OriFwInfo) (m : Mem) : ErrNe (hgicOtaCheckHdrInfo e info m) := by
  have hne : ∀ {p : Prop}, p → efault ≠ 0 := fun _ => by decide
  unfold hgicOtaCheckHdrInfo
  refine (errNe_fwField _ _ _).bind fun _ => ErrNe.guard hne ?_
  refine (errNe_fwField _ _ _).bind fun _ => (errNe_fwField _ _ _).bind fun _ => ErrNe.guard hne ?_
  exact (errNe_fwField _ _ _).bind fun _ => ErrNe.guard hne (errNe_pure ())

theorem errNe_checkFw (e : Endian) (info : OriFwInfo) (fw : Image) : ErrNe (hgicOtaCheckFw e info fw) := by
  unfold hgicOtaCheckFw
  refine (errNe_checkHdrInfo e info fw.data).bind fun _ => ErrNe.guard id ?_
  exact (errNe_fwField _ _ _).bind fun _ => errNe_pure ()

theorem afterParse_of_ne {ret : Int} (h : ret ≠ 0) : afterParse ret = .release ret := if_pos h

/-! ## What a call has sent -/

/-- On a little-endian host the checksum is that of the payload. -/
def Stamped (e : Endian) (p : Packet) : Prop := e = .little → p.checksum = hgicOtaCheckSum .little p.payload

def sentFrags (sent : List Event) : List Frag := sent.map fun ev => ev.packet.toFrag

/-- All fragments of the image were sent in order, and each was answered with `err_code` 0. -/
def Delivered (fw : Image) (sent : List Event) : Prop := sentFrags sent = frags fw ∧ ∀ ev ∈ sent, ev.ok

structure SentOk (e : Endian) (req : Request) (sent : List Event) : Prop where
  image : sent ≠ [] → ∃ fw, req = .ok fw
  initial : ∀ fw, req = .ok fw → sentFrags sent <+: frags fw
  stops : ∀ ev ∈ sent.dropLast, ev.ok
  stamped : ∀ ev ∈ sent, Stamped e ev.packet

structure Result (e : Endian) (req : Request) (sent : List Event) (ret : Int) : Prop extends SentOk e req sent where
  zero : ret = 0 → ∃ fw, req = .ok fw ∧ Delivered fw sent
  nonzero : ret ≠ 0 → ∀ fw, req = .ok fw → 0 < fw.size → ¬ Delivered fw sent

theorem sentOk_nil (e : Endian) (req : Request) : SentOk e req [] where
  image h := absurd rfl h
  initial fw _ := List.nil_prefix
  stops ev h := by simp at h
  stamped ev h := by simp at h

theorem result_unsent (e : Endian) (req : Request) {ret : Int} (h : ret ≠ 0) : Result e req [] ret := by
  refine ⟨sentOk_nil e req, fun h0 => absurd h0 h, fun _ fw _ hpos hd => ?_⟩
  have hlen := congrArg List.length hd.1
  simp only [sentFrags, frags, fragCount, List.map_nil, List.length_nil, List.length_map, List.length_range] at hlen
  omega

/-! ## The loop of `hgic_ota_parse_fw` -/

section Parsing
variable (e : Endian) (s : Ota) (req : Request) (sent : List Event) (fw : Image) (copyLen addrOffset k : Nat)

structure Parsing : Prop where
  image : req = .ok fw
  unsent : sent = []
  fwLen : s.fwLen = fw.size
  off : addrOffset = min (1500 * k) fw.size
  rest : copyLen = fw.size - addrOffset
  le : k ≤ fragCount fw
  queued : s.fwDataq.map Packet.toFrag = (List.range k).map (fragAt fw)
  stamped : ∀ p ∈ s.fwDataq, Stamped e p

variable {e s req sent fw copyLen addrOffset k}

theorem Parsing.off_eq (h : Parsing e s req sent fw copyLen addrOffset k) (hc : 0 < copyLen) :
    addrOffset = 1500 * k ∧ 1500 * k < fw.size := by
  have h1 := h.off
  have h2 := h.rest
  omega

theorem Parsing.xferLen (h : Parsing e s req sent fw copyLen addrOffset k) (hc : 0 < copyLen) :
    xferLen copyLen = min 1500 (fw.size - 1500 * k) := by
  have h1 := h.off_eq hc
  have h2 := h.rest
  unfold SendFw.xferLen hgOtaFwFlagmentSize
  split <;> omega

theorem Parsing.all (h : Parsing e s req sent fw copyLen addrOffset k) (hc : copyLen = 0) : k = fragCount fw := by
  have h1 := h.off
  have h2 := h.rest
  have h3 := h.le
  unfold fragCount at h3 ⊢
  omega

theorem Parsing.push (h : Parsing e s req sent fw copyLen addrOffset k) (hc : 0 < copyLen) {p : Packet}
    (hp : p.toFrag = fragAt fw k) (hstamp : Stamped e p) :
    Parsing e { s with fwDataq := s.fwDataq ++ [p] } req sent fw (copyLen - SendFw.xferLen copyLen)
      (addrOffset + SendFw.xferLen copyLen) (k + 1) := by
  obtain ⟨hoff, hlt⟩ := h.off_eq hc
  have hx := h.xferLen hc
  have hrest := h.rest
  refine ⟨h.image, h.unsent, h.fwLen, by omega, by omega, ?_, ?_, fun q hq => ?_⟩
  · unfold fragCount
    omega
  · rw [List.map_append, h.queued, List.range_succ, List.map_append, List.map_cons, List.map_nil, List.map_cons,
      List.map_nil, hp]
  · rcases List.mem_append.mp hq with hq | hq
    · exact h.stamped q hq
    · rwa [List.mem_singleton.mp hq]

theorem Parsing.fill (h : Parsing e s req sent fw copyLen addrOffset k) (hc : 0 < copyLen) {skb : Mem}
    (hskb : skb.read 0 (SendFw.xferLen copyLen) = fw.data.read addrOffset (SendFw.xferLen copyLen)) (info : OriFwInfo) :
    (hgicOtaFillHdr e info s.fwLen skb (SendFw.xferLen copyLen) addrOffset).toFrag = fragAt fw k ∧
    Stamped e (hgicOtaFillHdr e info s.fwLen skb (SendFw.xferLen copyLen) addrOffset) := by
  have hx := h.xferLen hc
  have hoff := (h.off_eq hc).1
  constructor
  · rw [hx] at hskb
    simp only [hgicOtaFillHdr, fragAt, h.fwLen, hx, hskb, hoff]
  · rintro rfl
    have hlen : cpuToLe16 .little (SendFw.xferLen copyLen) = SendFw.xferLen copyLen := by
      simp only [cpuToLe16]
      omega
    simp only [hgicOtaFillHdr, hlen]

end Parsing

/-! ## The queue while it is sent -/

section Draining
variable (e : Endian) (req : Request) (sent : List Event) (fw : Image) (q : List Packet)

structure Draining : Prop where
  image : req = .ok fw
  split : sentFrags sent ++ q.map Packet.toFrag = frags fw
  ok : ∀ ev ∈ sent, ev.ok
  stamped : ∀ ev ∈ sent, Stamped e ev.packet
  unsent : ∀ p ∈ q, Stamped e p

variable {e req sent fw q}

theorem Parsing.draining {s : Ota} {addrOffset k : Nat} (h : Parsing e s req sent fw 0 addrOffset k) :
    Draining e req sent fw s.fwDataq := by
  obtain rfl := h.unsent
  refine ⟨h.image, ?_, by simp, by simp, h.stamped⟩
  rw [h.queued, h.all rfl]
  rfl

theorem Draining.sentOk (h : Draining e req sent fw q) : SentOk e req sent := by
  refine ⟨fun _ => ⟨fw, h.image⟩, fun fw' hfw' => ?_, fun ev hev => h.ok ev (List.dropLast_subset sent hev), h.stamped⟩
  have hf : fw = fw' := Except.ok.inj (h.image.symm.trans hfw')
  rw [← hf, ← h.split]
  exact List.prefix_append _ _

theorem Draining.result (h : Draining e req sent fw []) : Result e req sent 0 := by
  have hall : sentFrags sent = frags fw := by
    have := h.split
    rwa [List.map_nil, List.append_nil] at this
  exact ⟨h.sentOk, fun _ => ⟨fw, h.image, hall, h.ok⟩, fun h0 => absurd rfl h0⟩

section Sent
variable {p : Packet} (h : Draining e req sent fw (p :: q)) (resp : Option Resp)
include h

theorem Draining.split_sent :
    sentFrags (sent ++ [⟨p, resp⟩]) ++ q.map Packet.toFrag = frags fw := by
  have hsplit := h.split
  rw [List.map_cons] at hsplit
  rw [sentFrags, List.map_append, List.append_assoc]
  exact hsplit

theorem Draining.stamped_sent : ∀ ev ∈ sent ++ [⟨p, resp⟩], Stamped e ev.packet := by
  intro ev hev
  rcases List.mem_append.mp hev with hev | hev
  · exact h.stamped ev hev
  · rw [List.mem_singleton.mp hev]
    exact h.unsent p List.mem_cons_self

theorem Draining.sent_ok {r : Resp} (hr : r.errCode = 0) : Draining e req (sent ++ [⟨p, some r⟩]) fw q := by
  refine ⟨h.image, h.split_sent (some r), fun ev hev => ?_, h.stamped_sent (some r), fun p' hp' =>
    h.unsent p' (List.mem_cons_of_mem p hp')⟩
  rcases List.mem_append.mp hev with hev | hev
  · exact h.ok ev hev
  · rw [List.mem_singleton.mp hev]
    exact ⟨r, rfl, hr⟩

theorem Draining.sent_failed (hbad : ¬ (⟨p, resp⟩ : Event).ok) {ret : Int} (hret : ret ≠ 0) :
    Result e req (sent ++ [⟨p, resp⟩]) ret := by
  refine ⟨⟨fun _ => ⟨fw, h.image⟩, fun fw' hfw' => ?_, fun ev hev => ?_, h.stamped_sent resp⟩, fun h0 => absurd h0 hret,
    fun _ fw' _ _ hd => hbad (hd.2 _ (by simp))⟩
  · have hf : fw = fw' := Except.ok.inj (h.image.symm.trans hfw')
    rw [← hf, ← h.split_sent resp]
    exact List.prefix_append _ _
  · rw [List.dropLast_concat] at hev
    exact h.ok ev hev

end Sent

end Draining

/-! ## The steps of a call -/

/-- Everything that one step of a call does. -/
inductive SendCase (e : Endian) (s : Ota) (c : Call) (x : Choice) : Ota → Call → Prop
  | rejected (ret : Int) (hpc : c.pc = .request) (hret : ret ≠ 0) : SendCase e s c x s (c.goto (.release ret))
  | accepted (fw : Image) (hpc : c.pc = .request) (hreq : c.req = .ok fw) : SendCase e s c x s (c.goto (.setLen fw))
  | setLen (fw : Image) (hpc : c.pc = .setLen fw) :
    SendCase e s c x { s with fwLen := fw.size % 2 ^ 32 } (c.goto (.readLen fw))
  | readLen (fw : Image) (hpc : c.pc = .readLen fw) : SendCase e s c x s (c.goto (.alloc fw s.fwLen 0))
  | parsed (fw : Image) (off : Nat) (hpc : c.pc = .alloc fw 0 off) : SendCase e s c x s (c.releaseFirmware .top)
  | noMem (fw : Image) (n off : Nat) (hpc : c.pc = .alloc fw n off) :
    SendCase e s c x s (c.releaseFirmware (.release enomem))
  | alloc (fw : Image) (n off : Nat) (m : Mem) (hpc : c.pc = .alloc fw n off) (hn : 0 < n) :
    SendCase e s c x s (c.goto (.fillTest fw n off (m.write 0 (fw.data.read off (xferLen n)))))
  | noLen (fw : Image) (n off : Nat) (skb : Mem) (hpc : c.pc = .fillTest fw n off skb) (hlen : s.fwLen = 0) :
    SendCase e s c x s (c.releaseFirmware (.release efault))
  | fillTest (fw : Image) (n off : Nat) (skb : Mem) (hpc : c.pc = .fillTest fw n off skb) :
    SendCase e s c x s (c.goto (.fillHdr fw n off skb))
  | fillHdr (fw : Image) (n off : Nat) (skb : Mem) (hpc : c.pc = .fillHdr fw n off skb) :
    SendCase e s c x s (c.goto (.queue fw n off (hgicOtaFillHdr e x.info s.fwLen skb (xferLen n) off)))
  | queue (fw : Image) (n off : Nat) (skb : Packet) (hpc : c.pc = .queue fw n off skb) :
    SendCase e s c x { s with fwDataq := s.fwDataq ++ [skb] } (c.goto (.alloc fw (n - xferLen n) (off + xferLen n)))
  | empty (hpc : c.pc = .top) (hq : s.fwDataq = []) : SendCase e s c x s (c.goto (.release 0))
  | more (hpc : c.pc = .top) (hq : s.fwDataq ≠ []) : SendCase e s c x s (c.goto .deq)
  | deq (skb : Packet) (q : List Packet) (hpc : c.pc = .deq) (hq : s.fwDataq = skb :: q) :
    SendCase e s c x { s with fwDataq := q } (c.goto (.send skb))
  | good (skb : Packet) (resp : Resp) (hpc : c.pc = .send skb) (herr : resp.errCode = 0) :
    SendCase e s c x s { c with pc := .top, sent := c.sent ++ [⟨skb, some resp⟩] }
  | bad (skb : Packet) (ret : Int) (hpc : c.pc = .send skb) (hbad : ¬ (⟨skb, x.resp⟩ : Event).ok) (hret : ret ≠ 0) :
    SendCase e s c x s { c with pc := .release ret, sent := c.sent ++ [⟨skb, x.resp⟩] }
  | free (skb : Packet) (q : List Packet) (ret : Int) (hpc : c.pc = .release ret) (hq : s.fwDataq = skb :: q) :
    SendCase e s c x { s with fwDataq := q } { c with pc := .release ret, freed := c.freed ++ [skb] }
  | cleared (ret : Int) (hpc : c.pc = .release ret) (hq : s.fwDataq = []) :
    SendCase e s c x s (c.goto (.returned ret))

section Cases
variable {e : Endian} {s t : Ota} {c d : Call} {x : Choice}

theorem send_cases (h : hgicOtaSendFw e s c x = some (t, d)) : SendCase e s c x t d := by
  unfold hgicOtaSendFw at h
  cases hpc : c.pc with
  | request =>
    rw [hpc] at h
    cases hreq : c.req with
    | error err =>
      rw [hreq] at h
      cases h
      exact .rejected enodev hpc (by decide)
    | ok fw =>
      rw [hreq] at h
      dsimp only at h
      cases hchk : hgicOtaCheckFw e x.info fw with
      | error ret =>
        rw [hchk] at h
        cases h
        have hret := errNe_checkFw e x.info fw ret hchk
        rw [afterParse_of_ne hret]
        exact .rejected ret hpc hret
      | ok u =>
        rw [hchk] at h
        cases h
        exact .accepted fw hpc hreq
  | setLen fw =>
    rw [hpc] at h
    cases h
    exact .setLen fw hpc
  | readLen fw =>
    rw [hpc] at h
    cases h
    exact .readLen fw hpc
  | alloc fw n off =>
    rw [hpc] at h
    dsimp only at h
    by_cases hn : n = 0
    · rw [if_pos hn] at h
      cases h
      exact .parsed fw off (hn ▸ hpc)
    · rw [if_neg hn] at h
      cases halloc : x.alloc with
      | none =>
        rw [halloc] at h
        cases h
        exact .noMem fw n off hpc
      | some m =>
        rw [halloc] at h
        cases h
        exact .alloc fw n off m hpc (Nat.pos_of_ne_zero hn)
  | fillTest fw n off skb =>
    rw [hpc] at h
    dsimp only at h
    by_cases hlen : s.fwLen = 0
    · rw [if_pos hlen] at h
      cases h
      exact .noLen fw n off skb hpc hlen
    · rw [if_neg hlen] at h
      cases h
      exact .fillTest fw n off skb hpc
  | fillHdr fw n off skb =>
    rw [hpc] at h
    cases h
    exact .fillHdr fw n off skb hpc
  | queue fw n off skb =>
    rw [hpc] at h
    cases h
    exact .queue fw n off skb hpc
  | top =>
    rw [hpc] at h
    cases h
    by_cases hq : s.fwDataq = []
    · rw [if_pos hq]
      exact .empty hpc hq
    · rw [if_neg hq]
      exact .more hpc hq
  | deq =>
    rw [hpc] at h
    cases hq : s.fwDataq with
    | nil =>
      rw [hq] at h
      cases h
    | cons skb q =>
      rw [hq] at h
      cases h
      exact .deq skb q hpc hq
  | send skb =>
    rw [hpc] at h
    dsimp only at h
    cases hresp : x.resp with
    | none =>
      rw [hresp] at h
      cases h
      rw [← hresp]
      refine .bad skb enodev hpc ?_ (by decide)
      rintro ⟨resp, hr, -⟩
      rw [hresp] at hr
      cases hr
    | some resp =>
      rw [hresp] at h
      cases h
      by_cases herr : resp.errCode = 0
      · rw [if_neg (not_not.mpr herr)]
        exact .good skb resp hpc herr
      · rw [if_pos herr, ← hresp]
        refine .bad skb resp.errCode hpc ?_ (by exact_mod_cast herr)
        rintro ⟨resp', hr, h0⟩
        rw [hresp] at hr
        cases hr
        exact herr h0
  | release ret =>
    rw [hpc] at h
    cases hq : s.fwDataq with
    | nil =>
      rw [hq] at h
      cases h
      exact .cleared ret hpc hq
    | cons skb q =>
      rw [hq] at h
      cases h
      exact .free skb q ret hpc hq
  | returned ret =>
    rw [hpc] at h
    cases h

end Cases

/-! ## The invariant of a call -/

/-- The call has not begun, or has returned. -/
def Pc.idle : Pc → Bool
  | .request | .returned _ => true
  | _ => false

def Pc.done : Pc → Bool
  | .returned _ => true
  | _ => false

abbrev Call.idle (c : Call) : Prop := c.pc.idle = true

abbrev Call.done (c : Call) : Prop := c.pc.done = true

/-- The shared state while no call is under way. -/
def Rest (s : Ota) : Prop := s.fwDataq = []

def Quiet (e : Endian) (req : Request) (sent : List Event) : Pc → Prop
  | .returned ret => Result e req sent ret
  | _ => sent = []

/-- A call that is under way, with the queue and `fw_len` for itself. -/
def Busy (e : Endian) (s : Ota) (req : Request) (sent : List Event) : Pc → Prop
  | .request | .returned _ => False
  | .setLen fw => req = .ok fw ∧ sent = [] ∧ s.fwDataq = []
  | .readLen fw => req = .ok fw ∧ sent = [] ∧ s.fwDataq = [] ∧ s.fwLen = fw.size
  | .alloc fw copyLen addrOffset => ∃ k, Parsing e s req sent fw copyLen addrOffset k
  | .fillTest fw copyLen addrOffset skb | .fillHdr fw copyLen addrOffset skb =>
    0 < copyLen ∧ skb.read 0 (xferLen copyLen) = fw.data.read addrOffset (xferLen copyLen) ∧
      ∃ k, Parsing e s req sent fw copyLen addrOffset k
  | .queue fw copyLen addrOffset skb =>
    0 < copyLen ∧ Stamped e skb ∧ ∃ k, skb.toFrag = fragAt fw k ∧ Parsing e s req sent fw copyLen addrOffset k
  | .top => ∃ fw, Draining e req sent fw s.fwDataq
  | .deq => s.fwDataq ≠ [] ∧ ∃ fw, Draining e req sent fw s.fwDataq
  | .send skb => ∃ fw, Draining e req sent fw (skb :: s.fwDataq)
  | .release ret => Result e req sent ret

abbrev Alone (e : Endian) : Ota → Call → Prop :=
  Solo Call.idle Rest (fun c => Quiet e c.req c.sent c.pc) fun s c => Busy e s c.req c.sent c.pc

section Alone
variable {e : Endian} {s t : Ota} {c d : Call} {x : Choice}

theorem alone_of_busy (hpc : c.pc.idle = false) (h : Busy e s c.req c.sent c.pc) : Alone e s c :=
  ⟨fun hid => absurd (hpc.symm.trans hid) (by decide), fun _ => h⟩

theorem busy_of_alone {pc : Pc} (h : Alone e s c) (hpc : c.pc = pc) (hid : pc.idle = false) :
    Busy e s c.req c.sent pc := by
  subst hpc
  exact h.2 (by simp [hid])

theorem alone_step (h : Alone e s c) (hr : hgicOtaSendFw e s c x = some (t, d)) : Alone e t d := by
  cases send_cases hr with
  | rejected ret hpc hret =>
    obtain ⟨hsent, -⟩ := h.1 (by rw [Call.idle, hpc]; rfl)
    rw [hpc] at hsent
    apply alone_of_busy rfl
    change Result e c.req c.sent ret
    rw [show c.sent = [] from hsent]
    exact result_unsent e c.req hret
  | accepted fw hpc hreq =>
    obtain ⟨hsent, hq⟩ := h.1 (by rw [Call.idle, hpc]; rfl)
    rw [hpc] at hsent
    exact alone_of_busy rfl ⟨hreq, hsent, hq⟩
  | setLen fw hpc =>
    obtain ⟨hreq, hsent, hq⟩ := busy_of_alone h hpc rfl
    exact alone_of_busy rfl ⟨hreq, hsent, hq, Nat.mod_eq_of_lt fw.size_lt⟩
  | readLen fw hpc =>
    obtain ⟨hreq, hsent, hq, hlen⟩ := busy_of_alone h hpc rfl
    refine alone_of_busy rfl ⟨0, hreq, hsent, hlen, by omega, by omega, Nat.zero_le _, ?_, ?_⟩
    · rw [hq]
      rfl
    · rw [hq]
      simp
  | parsed fw off hpc =>
    obtain ⟨k, hk⟩ := busy_of_alone h hpc rfl
    exact alone_of_busy rfl ⟨fw, hk.draining⟩
  | noMem fw n off hpc =>
    obtain ⟨k, hk⟩ := busy_of_alone h hpc rfl
    apply alone_of_busy rfl
    change Result e c.req c.sent enomem
    rw [hk.unsent]
    exact result_unsent e c.req (by decide)
  | alloc fw n off m hpc hn =>
    obtain ⟨k, hk⟩ := busy_of_alone h hpc rfl
    refine alone_of_busy rfl ⟨hn, ?_, k, hk⟩
    have := read_write_self m 0 (fw.data.read off (xferLen n))
    rwa [length_read] at this
  | noLen fw n off skb hpc hlen =>
    -- `fw_len` is the size of the image, which has bytes left
    obtain ⟨hn, -, k, hk⟩ := busy_of_alone h hpc rfl
    have h1 := hk.off_eq hn
    have h2 := hk.fwLen
    omega
  | fillTest fw n off skb hpc =>
    have hb := busy_of_alone h hpc rfl
    exact alone_of_busy rfl hb
  | fillHdr fw n off skb hpc =>
    obtain ⟨hn, hskb, k, hk⟩ := busy_of_alone h hpc rfl
    obtain ⟨hfrag, hstamp⟩ := hk.fill hn hskb x.info
    exact alone_of_busy rfl ⟨hn, hstamp, k, hfrag, hk⟩
  | queue fw n off skb hpc =>
    obtain ⟨hn, hstamp, k, hfrag, hk⟩ := busy_of_alone h hpc rfl
    exact alone_of_busy rfl ⟨k + 1, hk.push hn hfrag hstamp⟩
  | empty hpc hq =>
    obtain ⟨fw, hd⟩ := busy_of_alone h hpc rfl
    rw [hq] at hd
    exact alone_of_busy rfl hd.result
  | more hpc hq => exact alone_of_busy rfl ⟨hq, busy_of_alone h hpc rfl⟩
  | deq skb q hpc hq =>
    obtain ⟨-, fw, hd⟩ := busy_of_alone h hpc rfl
    rw [hq] at hd
    exact alone_of_busy rfl ⟨fw, hd⟩
  | good skb resp hpc herr =>
    obtain ⟨fw, hd⟩ := busy_of_alone h hpc rfl
    exact alone_of_busy rfl ⟨fw, hd.sent_ok herr⟩
  | bad skb ret hpc hbad hret =>
    obtain ⟨fw, hd⟩ := busy_of_alone h hpc rfl
    exact alone_of_busy rfl (hd.sent_failed x.resp hbad hret)
  | free skb q ret hpc hq =>
    have hres := busy_of_alone h hpc rfl
    exact alone_of_busy rfl hres
  | cleared ret hpc hq => exact ⟨fun _ => ⟨busy_of_alone h hpc rfl, hq⟩, fun hact => absurd rfl hact⟩

/-! ## The call returns -/

/-- The steps that are left, at most: seven for a byte that is not queued yet, three for a packet in the queue. -/
def Pc.steps (req : Request) (s : Ota) : Pc → Nat
  | .request => match req with
    | .ok fw => 7 * fw.size + 3 * s.fwDataq.length + 13
    | .error _ => 3 * s.fwDataq.length + 13
  | .setLen fw => 7 * fw.size + 3 * s.fwDataq.length + 12
  | .readLen _ => 7 * s.fwLen + 3 * s.fwDataq.length + 11
  | .alloc _ copyLen _ => 7 * copyLen + 3 * s.fwDataq.length + 10
  | .fillTest _ copyLen _ _ => 7 * copyLen + 3 * s.fwDataq.length + 9
  | .fillHdr _ copyLen _ _ => 7 * copyLen + 3 * s.fwDataq.length + 8
  | .queue _ copyLen _ _ => 7 * copyLen + 3 * s.fwDataq.length + 7
  | .top => 3 * s.fwDataq.length + 5
  | .deq => 3 * s.fwDataq.length + 4
  | .send _ => 3 * s.fwDataq.length + 6
  | .release _ => s.fwDataq.length + 1
  | .returned _ => 0

theorem xferLen_pos {copyLen : Nat} (h : 0 < copyLen) : 0 < xferLen copyLen := by
  unfold xferLen hgOtaFwFlagmentSize
  split <;> omega

theorem le_steps_request (req : Request) (s : Ota) : 3 * s.fwDataq.length + 13 ≤ Pc.request.steps req s := by
  cases req <;> simp only [Pc.steps] <;> omega

theorem steps_lt (h : Alone e s c) (hr : hgicOtaSendFw e s c x = some (t, d)) :
    d.pc.steps d.req t < c.pc.steps c.req s := by
  cases send_cases hr with
  | rejected ret hpc hret =>
    rw [hpc]
    refine Nat.lt_of_lt_of_le ?_ (le_steps_request c.req s)
    simp only [Call.goto, Pc.steps]
    omega
  | accepted fw hpc hreq =>
    rw [hpc, hreq]
    simp only [Call.goto, Pc.steps]
    omega
  | queue fw n off skb hpc =>
    obtain ⟨hn, -⟩ := busy_of_alone h hpc rfl
    have hx := xferLen_pos hn
    rw [hpc]
    simp only [Call.goto, Pc.steps, List.length_append, List.length_singleton]
    omega
  | setLen fw hpc | readLen fw hpc | parsed fw off hpc | noMem fw n off hpc | alloc fw n off m hpc hn
  | noLen fw n off skb hpc hlen | fillTest fw n off skb hpc | fillHdr fw n off skb hpc | empty hpc hq | more hpc hq
  | good skb resp hpc herr | bad skb ret hpc hbad hret | cleared ret hpc hq =>
    rw [hpc]
    simp only [Call.goto, Call.releaseFirmware, Pc.steps]
    omega
  | deq skb q hpc hq | free skb q ret hpc hq =>
    rw [hpc]
    simp only [Call.goto, Pc.steps, hq, List.length_cons]
    omega

/-- A call that has not returned can take a step. -/
theorem alone_enabled (h : Alone e s c) (hdone : ¬ c.done) : ∃ r, hgicOtaSendFw e s c x = some r := by
  unfold hgicOtaSendFw
  cases hpc : c.pc with
  | deq =>
    obtain ⟨hq, -⟩ := busy_of_alone h hpc rfl
    dsimp only
    split
    · next hnil => exact absurd hnil hq
    · exact ⟨_, rfl⟩
  | returned ret => exact absurd (by rw [Call.done, hpc]; rfl) hdone
  | request | setLen | readLen | alloc | fillTest | fillHdr | queue | top | send | release =>
    dsimp only
    repeat' split
    all_goals exact ⟨_, rfl⟩

end Alone

end HgicFmac.SendFw
