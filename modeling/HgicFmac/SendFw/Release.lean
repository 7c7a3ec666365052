import HgicFmac.SendFw.Turns

/-!
# What a call of `hgic_ota_send_fw` obtains and gives back

* `Op`, `sendOps` : the operations of a step on the firmware object, the packets and the responses;
* `Run`, `runStep` : a call on its own with all its operations so far; `callRuns` : it returns;
* `Balanced` : every object that was obtained was given back once; a packet goes by the offset of its fragment;
* `Keeps` : the file that was obtained passes all checks, and no packet that is sent gets a response;
* `StepOps` : what a step adds to the balance; `balanced_iff_keeps` : the runs that give everything back are those whose
  steps all keep it.
-/

namespace HgicFmac.SendFw
open Lib Fwinfo

inductive Op
  | requestFirmware
  | releaseFirmware
  | allocSkb (off : Nat)
  | sendSkb (off : Nat)
  | freeSkb (off : Nat)
  | response
  | freeResponse
  deriving DecidableEq, Repr

/-- The operations of a step of `hgicOtaSendFw`. No response is freed, nor the file when a check fails. -/
@[simp] def sendOps (s : Ota) (c : Call) (x : Choice) : List Op :=
  match c.pc with
  | .request => match c.req with
    | .error _ => []
    | .ok _ => [.requestFirmware]
  | .alloc _ copyLen addrOffset =>
    if copyLen = 0 then [.releaseFirmware]
    else match x.alloc with
      | none => [.releaseFirmware]
      | some _ => [.allocSkb addrOffset]
  | .fillTest _ _ _ _ => if s.fwLen = 0 then [.releaseFirmware] else []
  | .send skb => .sendSkb skb.off :: if x.resp.isSome then [.response] else []
  | .release _ => s.fwDataq.head?.toList.map fun skb => .freeSkb skb.off
  | .setLen _ | .readLen _ | .fillHdr _ _ _ _ | .queue _ _ _ _ | .top | .deq | .returned _ => []

structure Run where
  ota : Ota
  call : Call
  ops : List Op

def runStep (e : Endian) (r : Run) (x : Choice) : Option Run :=
  (hgicOtaSendFw e r.ota r.call x).map fun t => ⟨t.1, t.2, r.ops ++ sendOps r.ota r.call x⟩

def beginRun (fwLen : Nat) (req : Request) : Run := ⟨⟨[], fwLen⟩, beginCall req, []⟩

structure Balanced (ops : List Op) : Prop where
  firmware : ops.count .releaseFirmware = ops.count .requestFirmware
  skbs : ∀ off, ops.count (.sendSkb off) + ops.count (.freeSkb off) = ops.count (.allocSkb off)
  responses : ops.count .freeResponse = ops.count .response

/-- What has to be true of a step, in the state before it. -/
def Keeps (e : Endian) (r : Run) (x : Choice) : Prop :=
  match r.call.pc with
  | .request => ∀ fw, r.call.req = .ok fw → hgicOtaCheckFw e x.info fw = .ok ()
  | .send _ => x.resp = none
  | _ => True

/-! ## The balance of a step -/

@[simp] def Pc.holdsFw : Pc → Nat
  | .setLen _ | .readLen _ | .alloc _ _ _ | .fillTest _ _ _ _ | .fillHdr _ _ _ _ | .queue _ _ _ _ => 1
  | .request | .top | .deq | .send _ | .release _ | .returned _ => 0

/-- The packet of the fragment at `off` is held and not in the queue. -/
@[simp] def Pc.holdsSkb (off : Nat) : Pc → Nat
  | .fillTest _ _ addrOffset _ | .fillHdr _ _ addrOffset _ => if addrOffset = off then 1 else 0
  | .queue _ _ _ skb | .send skb => if skb.off = off then 1 else 0
  | _ => 0

/-- The packets of the fragment at `off` that a call holds. -/
@[simp] def heldSkbs (s : Ota) (c : Call) (off : Nat) : Nat := (s.fwDataq.map (·.off)).count off + c.pc.holdsSkb off

/-- The file is obtained and a check fails. -/
@[simp] def lostFw (e : Endian) (c : Call) (x : Choice) : Nat :=
  match c.pc, c.req with
  | .request, .ok fw => if hgicOtaCheckFw e x.info fw = .ok () then 0 else 1
  | _, _ => 0

@[simp] def gotResponse (c : Call) (x : Choice) : Nat :=
  match c.pc with
  | .send _ => if x.resp.isSome then 1 else 0
  | _ => 0

/-- What a step obtains and gives back against what is held before and behind it. -/
structure StepOps (e : Endian) (s : Ota) (c : Call) (x : Choice) (t : Ota) (d : Call) : Prop where
  firmware : (sendOps s c x).count .requestFirmware + c.pc.holdsFw =
    (sendOps s c x).count .releaseFirmware + d.pc.holdsFw + lostFw e c x
  skbs : ∀ off, (sendOps s c x).count (.allocSkb off) + heldSkbs s c off =
    (sendOps s c x).count (.sendSkb off) + (sendOps s c x).count (.freeSkb off) + heldSkbs t d off
  responses : (sendOps s c x).count .response = gotResponse c x
  freed : (sendOps s c x).count .freeResponse = 0

section Step
variable {e : Endian} {s t : Ota} {c d : Call} {x : Choice}

@[simp] theorem goto_eq (c : Call) (pc : Pc) : c.goto pc = { c with pc := pc } := rfl

@[simp] theorem releaseFirmware_eq (c : Call) (pc : Pc) :
    c.releaseFirmware pc = { c with pc := pc, released := c.released + 1 } := rfl

theorem stepOps (h : Alone e s c) (hr : hgicOtaSendFw e s c x = some (t, d)) : StepOps e s c x t d := by
  obtain ⟨req, pc, sent, freed, released⟩ := c
  cases pc with
  | request =>
    cases req with
    | error err =>
      cases hr
      constructor <;> simp [afterParse, enodev]
    | ok fw =>
      dsimp only [hgicOtaSendFw] at hr
      cases hchk : hgicOtaCheckFw e x.info fw with
      | error ret =>
        rw [hchk] at hr
        dsimp only at hr
        rw [afterParse_of_ne (errNe_checkFw e x.info fw ret hchk)] at hr
        cases hr
        constructor <;> simp [hchk]
      | ok u =>
        rw [hchk] at hr
        cases hr
        constructor <;> simp [hchk]
  | setLen fw | readLen fw =>
    cases hr
    constructor <;> simp
  | alloc fw n off =>
    dsimp only [hgicOtaSendFw] at hr
    by_cases hn : n = 0
    · rw [if_pos hn] at hr
      cases hr
      constructor <;> simp [hn, afterParse]
    · rw [if_neg hn] at hr
      cases halloc : x.alloc with
      | none =>
        rw [halloc] at hr
        cases hr
        constructor <;> simp [hn, halloc, afterParse, enomem]
      | some m =>
        rw [halloc] at hr
        cases hr
        constructor <;> simp [hn, halloc, List.count_singleton, Nat.add_comm]
  | fillTest fw n off skb =>
    -- the packet would be lost, but `fw_len` is the size of the image, which has bytes left
    obtain ⟨hn, -, k, hk⟩ := busy_of_alone h rfl rfl
    have hlen : s.fwLen ≠ 0 := by
      have hoff := hk.off_eq hn
      have hsize := hk.fwLen
      omega
    dsimp only [hgicOtaSendFw] at hr
    rw [if_neg hlen] at hr
    cases hr
    constructor <;> simp [hlen]
  | fillHdr fw n off skb =>
    cases hr
    constructor <;> simp [hgicOtaFillHdr]
  | queue fw n off skb =>
    cases hr
    constructor <;> simp [List.count_singleton]
  | top =>
    dsimp only [hgicOtaSendFw] at hr
    split at hr
    all_goals
      cases hr
      constructor <;> simp
  | deq =>
    dsimp only [hgicOtaSendFw] at hr
    split at hr
    · cases hr
    · next skb q hq =>
      cases hr
      constructor <;> simp [hq, List.count_cons]
  | send skb =>
    dsimp only [hgicOtaSendFw] at hr
    split at hr
    · next hresp =>
      cases hr
      constructor <;> simp [hresp, List.count_cons, Nat.add_comm]
    · next r hresp =>
      split at hr
      all_goals
        cases hr
        constructor <;> simp [hresp, List.count_cons, Nat.add_comm]
  | release ret =>
    dsimp only [hgicOtaSendFw] at hr
    split at hr
    · next hq =>
      cases hr
      constructor <;> simp [hq]
    · next skb q hq =>
      cases hr
      constructor <;> simp [hq, List.count_cons, Nat.add_comm]
  | returned ret => cases hr

theorem keeps_iff (r : Run) : Keeps e r x ↔ lostFw e r.call x = 0 ∧ gotResponse r.call x = 0 := by
  obtain ⟨ota, ⟨req, pc, sent, freed, released⟩, ops⟩ := r
  cases pc with
  | request =>
    cases req with
    | error err => simp [Keeps]
    | ok fw => simp [Keeps]
  | send skb => simp [Keeps]
  | _ => simp [Keeps]

instance (r : Run) : Decidable (Keeps e r x) := decidable_of_iff _ (keeps_iff r).symm

end Step

/-! ## The balance of a run -/

section Run
variable {e : Endian} {r u : Run} {x : Choice}

structure Ledger (e : Endian) (r : Run) : Prop where
  alone : Alone e r.ota r.call
  firmware : r.ops.count .releaseFirmware + r.call.pc.holdsFw ≤ r.ops.count .requestFirmware
  skbs : ∀ off, r.ops.count (.allocSkb off) =
    r.ops.count (.sendSkb off) + r.ops.count (.freeSkb off) + heldSkbs r.ota r.call off
  freed : r.ops.count .freeResponse = 0

/-- The file is neither held nor released, or there has been a response. -/
def Lost (r : Run) : Prop :=
  r.ops.count .releaseFirmware + r.call.pc.holdsFw < r.ops.count .requestFirmware ∨ 0 < r.ops.count .response

theorem runStep_eq_some (h : runStep e r x = some u) :
    hgicOtaSendFw e r.ota r.call x = some (u.ota, u.call) ∧ u.ops = r.ops ++ sendOps r.ota r.call x := by
  obtain ⟨t, ht, rfl⟩ := Option.map_eq_some_iff.mp h
  exact ⟨ht, rfl⟩

theorem ledger_step (h : Ledger e r) (hr : runStep e r x = some u) : Ledger e u := by
  obtain ⟨hs, hops⟩ := runStep_eq_some hr
  have hstep := stepOps h.alone hs
  refine ⟨alone_step h.alone hs, ?_, fun off => ?_, ?_⟩
  · have hfw := hstep.firmware
    have hold := h.firmware
    rw [hops, List.count_append, List.count_append]
    omega
  · have hskb := hstep.skbs off
    have hold := h.skbs off
    rw [hops, List.count_append, List.count_append, List.count_append]
    omega
  · rw [hops, List.count_append, h.freed, hstep.freed]

/-- A step against `Keeps` loses the file or gets a response; what is lost stays lost. -/
theorem lost_step (h : Ledger e r) (hr : runStep e r x = some u) : Lost u ↔ Lost r ∨ ¬ Keeps e r x := by
  obtain ⟨hs, hops⟩ := runStep_eq_some hr
  have hstep := stepOps h.alone hs
  have hfw := hstep.firmware
  have hold := h.firmware
  unfold Lost
  rw [keeps_iff, hops, List.count_append, List.count_append, List.count_append, hstep.responses]
  omega

theorem ledger_begin (e : Endian) (fwLen : Nat) (req : Request) : Ledger e (beginRun fwLen req) where
  alone := ⟨fun _ => ⟨rfl, rfl⟩, fun hact => absurd rfl hact⟩
  firmware := Nat.le_refl 0
  skbs _ := rfl
  freed := rfl

/-- When the call has returned nothing is held any more. -/
theorem balanced_of_done (h : Ledger e r) (hd : r.call.done) : Balanced r.ops ↔ ¬ Lost r := by
  obtain ⟨ret, hpc⟩ := exists_returned hd
  have hq : r.ota.fwDataq = [] := (h.alone.1 (idle_of_done hd)).2
  have hskb : ∀ off, heldSkbs r.ota r.call off = 0 := by
    intro off
    rw [heldSkbs, hq, hpc]
    rfl
  have hfw := h.firmware
  unfold Lost
  rw [hpc] at hfw ⊢
  change _ + 0 ≤ _ at hfw
  constructor
  · rintro ⟨hrel, -, hresp⟩ hlost
    rw [h.freed] at hresp
    change _ + 0 < _ ∨ _ at hlost
    omega
  · intro hlost
    change ¬ (_ + 0 < _ ∨ _) at hlost
    refine ⟨by omega, fun off => ?_, ?_⟩
    · rw [h.skbs off, hskb off, Nat.add_zero]
    · rw [h.freed]
      omega

end Run

/-- A call returns, and in every run in which it does, everything it has obtained was given back once exactly when
`request_firmware` has failed or all checks were passed, and no packet that was sent got a response. -/
theorem balanced_iff_keeps (e : Endian) (fwLen : Nat) (req : Request) :
    Reaches (runStep e) (fun r => r.call.done) (beginRun fwLen req) ∧
    ∀ (xs : List Choice) (r : Run), runFrom (runStep e) (beginRun fwLen req) xs = some r → r.call.done →
      (Balanced r.ops ↔ Steps (runStep e) (Keeps e) (beginRun fwLen req) xs) := by
  have hbegin := ledger_begin e fwLen req
  constructor
  · refine reaches_of_measure (runStep e) (fun r => r.call.pc.steps r.call.req r.ota) (fun r x h => ?_) hbegin
    by_cases hd : r.call.done
    · exact .inl hd
    · obtain ⟨t, ht⟩ := alone_enabled (x := x) h.alone hd
      have hstep : runStep e r x = some ⟨t.1, t.2, r.ops ++ sendOps r.ota r.call x⟩ := by
        rw [runStep, ht, Option.map_some]
      exact .inr ⟨_, hstep, ledger_step h hstep, steps_lt h.alone ht⟩
  · intro xs r hr hd
    rw [balanced_of_done (reach_invariant (runStep e) (fun _ _ _ => ledger_step) hbegin hr) hd]
    have hnot : ¬ Lost (beginRun fwLen req) := by simp [Lost, beginRun, beginCall]
    exact run_defect_iff (runStep e) (fun _ _ _ => ledger_step) (fun _ _ _ h hl hs => (lost_step h hs).mpr (.inl hl))
      (fun _ _ _ h hk hs => (lost_step h hs).mpr (.inr hk))
      (fun _ _ _ h hl hk hs hl' => ((lost_step h hs).mp hl').elim hl fun hn => hn hk) hbegin hnot hr

/-- The packet of a good file is not answered. -/
theorem balanced_iff_keeps_unanswered : ∃ r, runFrom (runStep .little) (beginRun 0 (.ok (plainImage 0)))
    (List.replicate 12 unanswered) = some r ∧ r.call.done ∧ Balanced r.ops := by
  refine ⟨_, rfl, rfl, ?_⟩
  exact ((balanced_iff_keeps .little 0 (.ok (plainImage 0))).2 (List.replicate 12 unanswered) _ rfl rfl).mpr (by decide)

/-- A file of zeros is not released. -/
theorem balanced_fails : ¬ ∀ (e : Endian) (fwLen : Nat) (req : Request) (xs : List Choice) (r : Run),
    runFrom (runStep e) (beginRun fwLen req) xs = some r → r.call.done → Balanced r.ops := by
  intro hall
  have h := hall .little 0 (.ok ⟨⟨fun _ => 0, 131⟩, by decide⟩) (List.replicate 2 unanswered) _ rfl rfl
  exact absurd h.firmware (by decide)

end HgicFmac.SendFw
