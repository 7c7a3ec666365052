import HgicFmac.Core.Probe
import HgicFmac.Hdr

/-!
# What `hgic_sdio_probe` allocates

* `hgicSdioEnable`, `hgicSdioProbe`, `hgicSdioRemove` : the requests, and what is freed, in the source's order;
* `sdioOwned` : what belongs to the driver data; `probe_holds`, `remove_holds` : between the two nothing else is
  allocated;
* `sdio_frees` : a probe without device has freed everything, and `hgic_sdio_remove` frees the rest;
* `sdio_no_device` : the probes that return 0 without a device, for which `hgic_sdio_suspend` follows a null pointer.
-/

namespace HgicFmac.Sdio
open Lib Probe

/-- The results of `sdio_set_block_size`, `sdio_claim_irq` and `sdio_enable_func`. -/
structure Enabling where
  blockSize : Int
  claimIrq : Int
  enableFunc : Int

def hgicSdioEnable (a : Enabling) (h : Ledger Obj) : Int × Ledger Obj :=
  if a.blockSize ≠ 0 then (a.blockSize, h)
  else if a.claimIrq ≠ 0 then (a.claimIrq, h)
  else
    let h := h.alloc .irq
    if a.enableFunc ≠ 0 then (a.enableFunc, h.free .irq) else (0, h)

/-- What a probe returns, what `sdio_get_drvdata` finds behind it, and what is allocated. -/
structure Probed where
  ret : Int
  drvdata : Option Wdev
  ledger : Ledger Obj

/-- `__failed`, with the value of `ret`, and whether there is an `rxbuf`. -/
def probeFailed (ret : Int) (rxbuf : Bool) (hg : Option Wdev) (h : Ledger Obj) : Probed :=
  let h := hgicfCoreRemove hg h
  let h := if rxbuf then h.free .rxbuf else h
  ⟨ret, none, h.free .sdiodev⟩

/-- The first two ways to `__failed` leave `ret` as it was initialised. -/
def hgicSdioProbe (e : Nat → Bool) (fNum devId : Nat) (a : Enabling) : Probed :=
  if fNum ≠ 1 then ⟨enodev, none, .empty⟩
  else match Ledger.empty.tryAlloc e .sdiodev with
    | (false, h) => ⟨enomem, none, h⟩
    | (true, h) => match h.tryAlloc e .rxbuf with
      | (false, h) => probeFailed 0 false none h
      | (true, h) => match hgicfCoreProbe e devId h with
        | (none, h) => probeFailed 0 true none h
        | (some w, h) =>
          let r := hgicSdioEnable a h
          if r.1 ≠ 0 then probeFailed r.1 true (some w) r.2 else ⟨r.1, some w, r.2⟩

def hgicSdioRemove : Option Wdev → Ledger Obj → Ledger Obj
  | none, h => h
  | some w, h => ((hgicfCoreRemove (some w) (h.free .irq)).free .rxbuf).free .sdiodev

/-- `none` : the driver data is a null pointer, and is followed. `hgic_sdio_resume` does the same with `bus.resume`. -/
def hgicSdioSuspend (suspend : Wdev → Int) (drvdata : Option Wdev) : Option Int := drvdata.map suspend

def sdioOwned : Option Wdev → List Obj
  | none => []
  | some w => .irq :: (w.owns ++ [.rxbuf, .sdiodev])

section Ledger
variable {e : Nat → Bool} {h : Ledger Obj} {os : List Obj} {w : Wdev}

theorem enable_holds (a : Enabling) (hh : Holds h os) :
    Holds (hgicSdioEnable a h).2 (if (hgicSdioEnable a h).1 = 0 then .irq :: os else os) := by
  have hirq : Holds (h.alloc .irq) (.irq :: os) := ⟨hh.live.cons _, hh.bad⟩
  unfold hgicSdioEnable
  split_ifs with hblk hclaim hfunc hret
  · exact hh
  · exact hh
  · exact hirq.free
  · exact hirq
  · exact absurd rfl hret

theorem probeFailed_holds (ret : Int) (rxbuf : Bool) {hg : Option Wdev}
    (hh : Holds h (owned hg ++ ((if rxbuf then [.rxbuf] else []) ++ [.sdiodev]))) :
    Holds (probeFailed ret rxbuf hg h).ledger [] := by
  have hremoved := coreRemove_holds hh
  cases rxbuf with
  | false => exact hremoved.free
  | true => exact hremoved.free.free

theorem probe_holds (e : Nat → Bool) (fNum devId : Nat) (a : Enabling) :
    Holds (hgicSdioProbe e fNum devId a).ledger (sdioOwned (hgicSdioProbe e fNum devId a).drvdata) := by
  unfold hgicSdioProbe
  split
  · exact Holds.empty
  · split
    · next h1 hdev => exact Holds.empty.tryAlloc_false hdev
    · next h1 hdev =>
      have h1hold := Holds.empty.tryAlloc_true hdev
      split
      · next h2 hbuf => exact probeFailed_holds 0 false (h1hold.tryAlloc_false hbuf)
      · next h2 hbuf =>
        have hcore := coreProbe_holds e devId (h1hold.tryAlloc_true hbuf)
        split
        · next h3 hprobe =>
          rw [hprobe] at hcore
          exact probeFailed_holds 0 true hcore
        · next w h3 hprobe =>
          rw [hprobe] at hcore
          have henable := enable_holds a hcore
          dsimp only
          split
          · next hret =>
            rw [if_neg hret] at henable
            exact probeFailed_holds _ true henable
          · next hret =>
            rw [if_pos (not_not.1 hret)] at henable
            exact henable

theorem remove_holds {drvdata : Option Wdev} (hh : Holds h (sdioOwned drvdata)) :
    Holds (hgicSdioRemove drvdata h) [] := by
  cases drvdata with
  | none => exact hh
  | some w => exact (@coreRemove_holds _ _ (some w) hh.free).free.free

/-- The interrupt comes first in `sdioOwned`, and `hgicf_delay_init` leaves it alone. -/
theorem delayInits_sdioOwned (rs : List Bool) (hh : Holds h (sdioOwned (some w))) :
    Holds (delayInits e rs w h).2 (sdioOwned (some (delayInits e rs w h).1)) :=
  (delayInits_holds e rs (hh.perm List.perm_middle.symm)).perm List.perm_middle

end Ledger

/-- Whatever is refused, and whatever the MMC core answers. `rs` : the tries of `hgicf_delay_init` to create the
interface. -/
theorem sdio_frees (e : Nat → Bool) (fNum devId : Nat) (a : Enabling) (rs : List Bool) :
    let p := hgicSdioProbe e fNum devId a
    match p.drvdata with
    | none => p.ledger.live = [] ∧ p.ledger.bad = []
    | some w =>
      let r := delayInits e rs w p.ledger
      let h := hgicSdioRemove (some r.1) r.2
      h.live = [] ∧ h.bad = [] := by
  have hheld := probe_holds e fNum devId a
  generalize hgicSdioProbe e fNum devId a = p at hheld
  rcases p with ⟨ret, drvdata, h⟩
  cases drvdata with
  | none => exact ⟨hheld.live.eq_nil, hheld.bad⟩
  | some w =>
    have hremoved := remove_holds (delayInits_sdioOwned (e := e) rs hheld)
    exact ⟨hremoved.live.eq_nil, hremoved.bad⟩

/-- The requests are those for the driver data, `rxbuf`, the device, and after that of `hgic_fwctrl_init` the work queue
of the device. -/
theorem sdio_no_device (e : Nat → Bool) (fNum devId : Nat) (a : Enabling) (suspend : Wdev → Int) :
    let p := hgicSdioProbe e fNum devId a
    p.ret = 0 ∧ hgicSdioSuspend suspend p.drvdata = none ↔
      fNum = 1 ∧ e 0 = true ∧ (e 1 = false ∨ hgicfMatchDevid devId = false ∨ e 2 = false ∨ e 4 = false) := by
  dsimp only
  unfold hgicSdioProbe
  split
  · next hnum => exact iff_of_false (fun hp => absurd hp.1 (by decide)) fun hc => hnum hc.1
  · next hnum =>
    have hfunc : fNum = 1 := not_not.1 hnum
    split
    · next h1 hdev =>
      have hasked := Ledger.tryAlloc_asked hdev
      refine iff_of_false (fun hp => absurd (show enomem = 0 from hp.1) (by decide)) fun hc => ?_
      exact absurd (hc.2.1.symm.trans hasked.1) nofun
    · next h1 hdev =>
      obtain ⟨hgot0, hone⟩ := Ledger.tryAlloc_asked hdev
      have hdevice : e 0 = true := hgot0
      split
      · next h2 hbuf =>
        have hgot1 := (Ledger.tryAlloc_asked hbuf).1
        rw [hone] at hgot1
        exact iff_of_true ⟨rfl, rfl⟩ ⟨hfunc, hdevice, .inl hgot1⟩
      · next h2 hbuf =>
        obtain ⟨hgot1, htwo⟩ := Ledger.tryAlloc_asked hbuf
        rw [hone] at hgot1 htwo
        have hcore := coreProbe_none e devId h2
        rw [htwo] at hcore
        split
        · next h3 hprobe =>
          rw [hprobe] at hcore
          exact iff_of_true ⟨rfl, rfl⟩ ⟨hfunc, hdevice, .inr (hcore.1 rfl)⟩
        · next w h3 hprobe =>
          rw [hprobe] at hcore
          refine iff_of_false ?_ fun hc => ?_
          · rintro ⟨hret, hnone⟩
            dsimp only at hret hnone
            split at hret
            · next hne => exact hne hret
            · next heq =>
              rw [if_neg heq] at hnone
              cases hnone
          · rcases hc.2.2 with hno | hno
            · exact absurd (hno.symm.trans hgot1) nofun
            · cases hcore.2 hno

/-- A device of the table of the bus driver that `hgicf_match_devid` does not know. -/
example : (hgicSdioProbe (fun _ => true) 1 0x4104 ⟨0, 0, 0⟩).ret = 0 ∧
    (hgicSdioProbe (fun _ => true) 1 0x4104 ⟨0, 0, 0⟩).drvdata = none := by decide

end HgicFmac.Sdio
