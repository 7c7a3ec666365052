import HgicFmac.Lib.Ledger

/-!
# What `hgicf_core_probe` allocates

* `Obj` : what the driver and its buses allocate; `Wdev` : what of it belongs to `struct hgicf_wdev`;
* `hgicfCoreProbe`, `hgicfDelayInit`, `hgicfCoreRemove` : the requests, and what is freed, in the source's order;
* `coreProbe_holds`, `delayInits_holds`, `coreRemove_holds` : between them the device owns what it has noted;
* `coreProbe_none` : for which requests there is no device;
* `orphans` : the URBs whose data was refused, which is none of their concern.
-/

namespace HgicFmac.Probe
open Lib

/-- Buffers and packets by number. `udevRef` is the reference of `usb_get_dev`, `irq` that of `sdio_claim_irq`. -/
inductive Obj
  | hg | ctrlWq | txWq | netdev
  | usbdev | udevRef | buf (b : Nat) | urb (b : Nat) | rxbuff (b : Nat) | skb (k : Nat)
  | sdiodev | rxbuf | irq
  deriving DecidableEq, Repr

def hgicFmacDevid : List Nat := [0x4002, 0x8400]

def hgicfMatchDevid (devId : Nat) : Bool := hgicFmacDevid.any (devId == ·)

/-- The work queues that were allocated, and whether there is a net device. -/
structure Wdev where
  ctrlWq : Bool
  txWq : Bool
  vif : Bool
  deriving DecidableEq, Repr

/-- `hgic_fwctrl_release` is the first to free something. -/
def hgicfCoreRemove : Option Wdev → Ledger Obj → Ledger Obj
  | none, h => h
  | some w, h =>
    let h := if w.ctrlWq then h.free .ctrlWq else h
    let h := if w.txWq then h.free .txWq else h
    let h := if w.vif then h.free .netdev else h
    h.free .hg

/-- `bus->bus_priv` and the ledger. Whether `hgic_fwctrl_init` got its work queue is not looked at. -/
def hgicfCoreProbe (e : Nat → Bool) (devId : Nat) (h : Ledger Obj) : Option Wdev × Ledger Obj :=
  if !hgicfMatchDevid devId then (none, h)
  else match h.tryAlloc e .hg with
    | (false, h) => (none, hgicfCoreRemove none h)
    | (true, h) =>
      let ctrl := h.tryAlloc e .ctrlWq
      match ctrl.2.tryAlloc e .txWq with
      | (false, h) => (none, hgicfCoreRemove (some ⟨ctrl.1, false, false⟩) h)
      | (true, h) => (some ⟨ctrl.1, true, false⟩, h)

/-- `hgicf_create_iface`; `registered` : whether `register_netdev` succeeds. -/
def hgicfCreateIface (e : Nat → Bool) (registered : Bool) (w : Wdev) (h : Ledger Obj) : Wdev × Ledger Obj :=
  match h.tryAlloc e .netdev with
  | (false, h) => (w, h)
  | (true, h) => if !registered then (w, h.free .netdev) else ({ w with vif := true }, h)

/-- A run of `hgicf_delay_init` that comes to `HGICF_DEV_FLAGS_INITED`, which is set behind `hg->vif`. -/
def hgicfDelayInit (e : Nat → Bool) (registered : Bool) (w : Wdev) (h : Ledger Obj) : Wdev × Ledger Obj :=
  if !w.vif then hgicfCreateIface e registered w h else (w, h)

def delayInits (e : Nat → Bool) : List Bool → Wdev → Ledger Obj → Wdev × Ledger Obj
  | [], w, h => (w, h)
  | registered :: rs, w, h =>
    let r := hgicfDelayInit e registered w h
    delayInits e rs r.1 r.2

def Wdev.owns (w : Wdev) : List Obj :=
  (if w.ctrlWq then [.ctrlWq] else []) ++ (if w.txWq then [.txWq] else []) ++ (if w.vif then [.netdev] else []) ++ [.hg]

/-- What belongs to `bus->bus_priv`. -/
def owned : Option Wdev → List Obj
  | none => []
  | some w => w.owns

section Ledger
variable {h : Ledger Obj} {os : List Obj} {w : Wdev}

theorem coreRemove_holds {hg : Option Wdev} (hh : Holds h (owned hg ++ os)) : Holds (hgicfCoreRemove hg h) os := by
  have hall := hh.freeAll
  cases hg with
  | none => exact hh
  | some w =>
    rcases w with ⟨ctrlWq, txWq, vif⟩
    cases ctrlWq <;> cases txWq <;> cases vif <;> exact hall

theorem coreProbe_holds (e : Nat → Bool) (devId : Nat) (hh : Holds h os) :
    Holds (hgicfCoreProbe e devId h).2 (owned (hgicfCoreProbe e devId h).1 ++ os) := by
  unfold hgicfCoreProbe
  split
  · exact hh
  · split
    · next h1 hhg => exact hh.tryAlloc_false hhg
    · next h1 hhg =>
      have hctrl := (hh.tryAlloc_true hhg).tryAlloc e .ctrlWq
      generalize h1.tryAlloc e .ctrlWq = ctrl at hctrl
      rcases ctrl with ⟨ctrlWq, h2⟩
      dsimp only at hctrl ⊢
      split
      · next h3 htx =>
        have h3hold := hctrl.tryAlloc_false htx
        refine @coreRemove_holds h3 os (some ⟨ctrlWq, false, false⟩) ?_
        cases ctrlWq <;> exact h3hold
      · next h3 htx =>
        have h3hold := hctrl.tryAlloc_true htx
        refine h3hold.perm ?_
        cases ctrlWq with
        | false => exact .refl _
        | true => exact .swap Obj.ctrlWq Obj.txWq _

theorem coreProbe_none (e : Nat → Bool) (devId : Nat) (h : Ledger Obj) : (hgicfCoreProbe e devId h).1 = none ↔
    hgicfMatchDevid devId = false ∨ e h.asked = false ∨ e (h.asked + 2) = false := by
  unfold hgicfCoreProbe
  split
  · next hno => exact iff_of_true rfl (.inl (by simpa using hno))
  · next hyes =>
    split
    · next h1 hhg => exact iff_of_true rfl (.inr (.inl (Ledger.tryAlloc_asked hhg).1))
    · next h1 hhg =>
      rcases hctrl : h1.tryAlloc e .ctrlWq with ⟨ctrlWq, h2⟩
      have hasked : h2.asked = h.asked + 2 := by
        rw [(Ledger.tryAlloc_asked hctrl).2, (Ledger.tryAlloc_asked hhg).2]
      rw [← hasked]
      dsimp only
      split
      · next h3 htx => exact iff_of_true rfl (.inr (.inr (Ledger.tryAlloc_asked htx).1))
      · next h3 htx =>
        refine iff_of_false nofun ?_
        rw [(Ledger.tryAlloc_asked hhg).1, (Ledger.tryAlloc_asked htx).1]
        simpa using hyes

theorem createIface_holds (e : Nat → Bool) (registered : Bool) (hv : w.vif = false) (hh : Holds h (w.owns ++ os)) :
    Holds (hgicfCreateIface e registered w h).2 ((hgicfCreateIface e registered w h).1.owns ++ os) := by
  have howns : (Obj.netdev :: w.owns).Perm { w with vif := true }.owns := by
    rcases w with ⟨ctrlWq, txWq, vif⟩
    cases hv
    cases ctrlWq <;> cases txWq <;> decide
  unfold hgicfCreateIface
  split
  · next h1 hndev => exact hh.tryAlloc_false hndev
  · next h1 hndev =>
    have hnew := hh.tryAlloc_true hndev
    cases registered with
    | false => exact hnew.free
    | true => exact hnew.perm (howns.append_right os)

/-- However often it is run, with whatever result: there is at most one net device, and it is noted. -/
theorem delayInits_holds (e : Nat → Bool) (rs : List Bool) (hh : Holds h (w.owns ++ os)) :
    Holds (delayInits e rs w h).2 ((delayInits e rs w h).1.owns ++ os) := by
  induction rs generalizing w h with
  | nil => exact hh
  | cons registered rs ih =>
    refine ih ?_
    unfold hgicfDelayInit
    split
    · next hv => exact createIface_holds e registered (by simpa using hv) hh
    · exact hh

end Ledger

/-! ## What was refused -/

def orphan : Obj → Option Obj
  | .rxbuff b => some (.urb b)
  | _ => none

/-- The URBs whose data was refused. -/
def orphans (h : Ledger Obj) : List Obj := h.refused.filterMap orphan

section Orphans
variable {e : Nat → Bool} {h h' : Ledger Obj} {o : Obj} {got : Bool}

theorem tryAlloc_orphans (ho : orphan o = none) (hgot : h.tryAlloc e o = (got, h')) : orphans h' = orphans h := by
  rw [orphans, h.tryAlloc_refused hgot]
  cases got with
  | true => rfl
  | false => exact List.filterMap_cons_none ho

theorem free_orphans (h : Ledger Obj) (o : Obj) : orphans (h.free o) = orphans h := by
  rw [orphans, h.free_refused]
  rfl

theorem coreRemove_orphans (hg : Option Wdev) (h : Ledger Obj) : orphans (hgicfCoreRemove hg h) = orphans h := by
  cases hg with
  | none => rfl
  | some w =>
    rcases w with ⟨ctrlWq, txWq, vif⟩
    cases ctrlWq <;> cases txWq <;> cases vif <;> simp [hgicfCoreRemove, free_orphans]

theorem coreProbe_orphans (e : Nat → Bool) (devId : Nat) (h : Ledger Obj) :
    orphans (hgicfCoreProbe e devId h).2 = orphans h := by
  unfold hgicfCoreProbe
  split
  · rfl
  · split
    · next h1 hhg => exact tryAlloc_orphans rfl hhg
    · next h1 hhg =>
      rcases hctrl : h1.tryAlloc e .ctrlWq with ⟨ctrlWq, h2⟩
      have h2same := (tryAlloc_orphans rfl hctrl).trans (tryAlloc_orphans rfl hhg)
      dsimp only
      split
      · next h3 htx => exact (coreRemove_orphans _ h3).trans ((tryAlloc_orphans rfl htx).trans h2same)
      · next h3 htx => exact (tryAlloc_orphans rfl htx).trans h2same

end Orphans

end HgicFmac.Probe
