import HgicFmac.Hgota.Libota
import Mathlib.Logic.ExistsUnique

/-!
# The station table over a run

`libota_find_sta` looks an address up in all entries, online or not; `libota_new_sta` takes the first one that is not
online; and `sta_count` is kept apart.

* `Ev`, `evStep`, `runTable` : received frames, fragments that are sent and scans that keep the table;
* `lastReport evs mac` : the last scan report of a run from `mac`;
* `TableCase` : what an event does to the table (`ev_cases`);
* `TableInv` : entries that are not online have the address 0, online ones distinct other addresses and the contents of
  the last report from there; the counter counts them;
* `station_table` : the properties of the table after a run.
-/

namespace HgicFmac.Hgota
open Lib

theorem length_zeroStas : (List.replicate otaStaCount zeroSta).length = otaStaCount := List.length_replicate

def libotaClearSta (_ : Libota) : Libota := ⟨List.replicate otaStaCount zeroSta, length_zeroStas, 0⟩

/-- `libota_scan`; the broadcast frame that it sends does not depend on the table. -/
def libotaScan (clear : Bool) (t : Libota) : Libota := if clear then libotaClearSta t else t

inductive Ev
  | rx (m : Mem) (len : Int)
  | sendFwData (mac : Mac) (info : FwInfo) (off : Nat) (data : List UInt8) (alloc : Bool)
  | scan

def evStep (h : Host) (t : Libota) : Ev → Libota
  | .rx m len => (libotaRxProc h t m len).2
  | .sendFwData mac info off data alloc => (libotaSendFwData h t mac info off data alloc).1
  | .scan => libotaScan false t

def runTable (h : Host) (t : Libota) (evs : List Ev) : Libota := evs.foldl (evStep h) t

def IsReport (m : Mem) (len : Int) : Prop := 0 < len ∧ rxProto m = ethPOta ∧ rxStype m = ethPOtaScanReport

instance (m : Mem) (len : Int) : Decidable (IsReport m len) := inferInstanceAs (Decidable (_ ∧ _ ∧ _))

def Ev.report (mac : Mac) : Ev → Option Mem
  | .rx m len => if IsReport m len ∧ rxSrc m = mac then some m else none
  | _ => none

def lastReport (evs : List Ev) (mac : Mac) : Option Mem := evs.reverse.findSome? (Ev.report mac)

def Reported (m : Mem) (sta : Sta) : Prop :=
  sta.chipid = load16 .big m 20 ∧ sta.version = load32 .big m 16 ∧ sta.svnVersion = load32 .big m 24

def onlineCount (t : Libota) : Nat := t.stas.countP (·.online)

/-- The `i`-th entry is an online one of `mac`. -/
def EntryOf (t : Libota) (mac : Mac) (i : Nat) : Prop :=
  ∃ sta, t.stas[i]? = some sta ∧ sta.online = true ∧ sta.addr = mac

/-! ## What an event does -/

/-- A write that leaves alone who the entry is and what it reported. -/
def Touches (f : Sta → Sta) : Prop :=
  ∀ sta, (f sta).addr = sta.addr ∧ (f sta).online = sta.online ∧ (f sta).chipid = sta.chipid ∧
    (f sta).version = sta.version ∧ (f sta).svnVersion = sta.svnVersion

def newEntry (m : Mem) : Sta := { zeroSta.report m with addr := rxSrc m }

inductive TableCase (t : Libota) : Ev → Libota → Prop
  | keep (ev : Ev) (hev : ∀ mac, ev.report mac = none) : TableCase t ev t
  | touch (ev : Ev) (hev : ∀ mac, ev.report mac = none) (mac : Mac) (k : Nat) (hk : libotaFindSta t mac = some k)
    (f : Sta → Sta) (hf : Touches f) : TableCase t ev (t.modify k f)
  | renew (m : Mem) (len : Int) (hm : IsReport m len) (k : Nat) (hk : libotaFindSta t (rxSrc m) = some k) :
    TableCase t (.rx m len) (t.modify k (Sta.report m))
  | enrol (m : Mem) (len : Int) (hm : IsReport m len) (hnone : libotaFindSta t (rxSrc m) = none) (k : Nat)
    (hk : libotaNewSta t = some k) :
    TableCase t (.rx m len) { t.modify k fun _ => newEntry m with staCount := t.staCount + 1 }
  | full (m : Mem) (len : Int) (hm : IsReport m len) (hnone : libotaFindSta t (rxSrc m) = none)
    (hnew : libotaNewSta t = none) : TableCase t (.rx m len) t

theorem report_none {m : Mem} {len : Int} (h : ¬ IsReport m len) (mac : Mac) : (Ev.rx m len).report mac = none :=
  if_neg fun hn => h hn.1

theorem report_self {m : Mem} {len : Int} (h : IsReport m len) : (Ev.rx m len).report (rxSrc m) = some m :=
  if_pos ⟨h, rfl⟩

theorem report_ne {m : Mem} (len : Int) {mac : Mac} (h : rxSrc m ≠ mac) : (Ev.rx m len).report mac = none :=
  if_neg fun hn => h hn.2

theorem addSta_cases (t : Libota) {m : Mem} {len : Int} (hm : IsReport m len) :
    TableCase t (.rx m len) (libotaAddSta t m).2 := by
  unfold libotaAddSta
  split
  · next k hk => exact .renew m len hm k hk
  · next hnone =>
    split
    · next k hk => exact .enrol m len hm hnone k hk
    · next hnew => exact .full m len hm hnone hnew

theorem rx_cases (h : Host) (t : Libota) (m : Mem) (len : Int) :
    TableCase t (.rx m len) (libotaRxProc h t m len).2 := by
  unfold libotaRxProc
  split
  · next hlen => exact .keep _ (report_none fun hn => absurd hn.1 (Int.not_lt.mpr hlen))
  next hlen =>
  split
  · next hproto => exact .keep _ (report_none fun hn => hproto hn.2.1)
  next hproto =>
  dsimp only
  split
  · next hst => exact addSta_cases t ⟨Int.not_le.mp hlen, not_not.mp hproto, hst⟩
  next hst =>
  have hno : ∀ mac, (Ev.rx m len).report mac = none := report_none fun hn => hst hn.2.2
  split
  · split
    · next k hk =>
      split
      · exact .touch _ hno _ k hk _ fun _ => ⟨rfl, rfl, rfl, rfl, rfl⟩
      · exact .keep _ hno
    · exact .keep _ hno
  split
  · split
    · next k hk =>
      split
      · exact .touch _ hno _ k hk _ fun _ => ⟨rfl, rfl, rfl, rfl, rfl⟩
      · exact .keep _ hno
    · exact .keep _ hno
  split
  · exact .keep _ hno
  · exact .keep _ hno

theorem ev_cases (h : Host) (t : Libota) (ev : Ev) : TableCase t ev (evStep h t ev) := by
  cases ev with
  | rx m len => exact rx_cases h t m len
  | scan => exact .keep _ fun _ => rfl
  | sendFwData mac info off data alloc =>
    show TableCase t _ (libotaSendFwData h t mac info off data alloc).1
    unfold libotaSendFwData
    dsimp only
    split
    · next k hk => exact .touch _ (fun _ => rfl) mac k hk _ fun _ => ⟨rfl, rfl, rfl, rfl, rfl⟩
    · exact .keep _ fun _ => rfl

/-! ## The invariant -/

/-- `rep` is the last report of each address. -/
structure TableInv (rep : Mac → Option Mem) (t : Libota) : Prop where
  offline : ∀ (i : Nat) (sta : Sta), t.stas[i]? = some sta → sta.online = false → sta.addr = zeroMac
  online : ∀ (i : Nat) (sta : Sta), t.stas[i]? = some sta → sta.online = true →
    sta.addr ≠ zeroMac ∧ ∃ m, rep sta.addr = some m ∧ Reported m sta
  unique : ∀ mac i j, EntryOf t mac i → EntryOf t mac j → i = j
  count : t.staCount = onlineCount t

theorem tableInv_init (rep : Mac → Option Mem) : TableInv rep libotaInit := by
  have hzero : ∀ i sta, libotaInit.stas[i]? = some sta → sta = zeroSta := fun i sta hs =>
    List.eq_of_mem_replicate (List.mem_of_getElem? hs)
  refine ⟨fun i sta hs _ => ?_, fun i sta hs hon => ?_, fun mac i j ⟨sta, hs, hon, _⟩ => ?_, rfl⟩
  · rw [hzero i sta hs]
    rfl
  · rw [hzero i sta hs] at hon
    cases hon
  · rw [hzero i sta hs] at hon
    cases hon

section Inv
variable {rep rep' : Mac → Option Mem} {t : Libota}

/-- The entry of an address other than 0 is online. -/
theorem TableInv.online_of_addr (hi : TableInv rep t) {i : Nat} {sta : Sta} (hs : t.stas[i]? = some sta)
    (hne : sta.addr ≠ zeroMac) : sta.online = true := by
  by_contra hoff
  exact hne (hi.offline i sta hs (Bool.not_eq_true _ ▸ hoff))

theorem onlineCount_modify {k : Nat} {x : Sta} (hk : t.stas[k]? = some x) (f : Sta → Sta) :
    onlineCount (t.modify k f) + (if x.online then 1 else 0) = onlineCount t + if (f x).online then 1 else 0 := by
  obtain ⟨hlt, hx⟩ := List.getElem?_eq_some_iff.mp hk
  have hset : t.stas.modify k f = t.stas.set k (f x) := by
    rw [List.modify_eq_set_getElem?, hk]
    rfl
  show (t.stas.modify k f).countP (·.online) + _ = t.stas.countP (·.online) + _
  rw [hset, List.countP_set hlt, hx]
  by_cases hon : x.online = true
  · have hpos : 0 < t.stas.countP (·.online) := List.countP_pos_iff.mpr ⟨x, List.mem_of_getElem? hk, hon⟩
    rw [if_pos hon]
    omega
  · rw [if_neg hon]
    omega

theorem onlineCount_le (t : Libota) : onlineCount t ≤ otaStaCount := t.len ▸ List.countP_le_length

theorem newSta_none : libotaNewSta t = none ↔ onlineCount t = otaStaCount := by
  rw [libotaNewSta, List.findIdx?_eq_none_iff, ← t.len, onlineCount, List.countP_eq_length]
  simp

theorem newSta_some {k : Nat} (hk : libotaNewSta t = some k) : ∃ x, t.stas[k]? = some x ∧ x.online = false := by
  obtain ⟨hlt, hp, -⟩ := List.findIdx?_eq_some_iff_getElem.mp hk
  exact ⟨_, List.getElem?_eq_getElem hlt, by simpa using hp⟩

theorem findSta_none {mac : Mac} (h : libotaFindSta t mac = none) {i : Nat} {sta : Sta} (hs : t.stas[i]? = some sta) :
    sta.addr ≠ mac := by
  rw [libotaFindSta, List.findIdx?_eq_none_iff] at h
  exact of_decide_eq_false (h sta (List.mem_of_getElem? hs))

theorem modify_cases {k i : Nat} {f : Sta → Sta} {sta : Sta} (hs : (t.modify k f).stas[i]? = some sta) :
    (i ≠ k ∧ t.stas[i]? = some sta) ∨ (i = k ∧ ∃ x, t.stas[k]? = some x ∧ sta = f x) := by
  rw [modify_get] at hs
  split at hs
  · next hki =>
    subst hki
    obtain ⟨x, hx, rfl⟩ := Option.map_eq_some_iff.mp hs
    exact .inr ⟨rfl, x, hx, rfl⟩
  · next hki => exact .inl ⟨fun he => hki he.symm, hs⟩

theorem TableInv.write (hi : TableInv rep t) {k n : Nat} {x : Sta} {f : Sta → Sta} (hk : t.stas[k]? = some x)
    (hoff : (f x).online = false → (f x).addr = zeroMac)
    (hon : (f x).online = true → (f x).addr ≠ zeroMac ∧ ∃ m, rep' (f x).addr = some m ∧ Reported m (f x))
    (hother : ∀ i sta, i ≠ k → t.stas[i]? = some sta → sta.online = true →
      sta.addr ≠ (f x).addr ∧ rep' sta.addr = rep sta.addr)
    (hn : n = onlineCount (t.modify k f)) : TableInv rep' { t.modify k f with staCount := n } := by
  have hold : ∀ {i sta}, (t.modify k f).stas[i]? = some sta → (i ≠ k ∧ t.stas[i]? = some sta) ∨ i = k ∧ sta = f x := by
    intro i sta hs
    rcases modify_cases hs with h | ⟨h, y, hy, rfl⟩
    · exact .inl h
    · exact .inr ⟨h, by rw [Option.some.inj (hk.symm.trans hy)]⟩
  refine ⟨fun i sta hs ho => ?_, fun i sta hs ho => ?_, fun mac i j ⟨sta, hs, ho, ha⟩ ⟨sta', hs', ho', ha'⟩ => ?_, hn⟩
  · rcases hold hs with ⟨-, hs⟩ | ⟨-, rfl⟩
    · exact hi.offline i sta hs ho
    · exact hoff ho
  · rcases hold hs with ⟨hik, hs⟩ | ⟨-, rfl⟩
    · rw [(hother i sta hik hs ho).2]
      exact hi.online i sta hs ho
    · exact hon ho
  · rcases hold hs with ⟨hik, hs⟩ | ⟨rfl, rfl⟩
    · rcases hold hs' with ⟨-, hs'⟩ | ⟨-, rfl⟩
      · exact hi.unique mac i j ⟨sta, hs, ho, ha⟩ ⟨sta', hs', ho', ha'⟩
      · exact absurd (ha.trans ha'.symm) (hother i sta hik hs ho).1
    · rcases hold hs' with ⟨hjk, hs'⟩ | ⟨rfl, -⟩
      · exact absurd (ha'.trans ha.symm) (hother j sta' hjk hs' ho').1
      · rfl

/-- Online entries other than the `k`-th have other addresses. -/
theorem TableInv.addr_ne (hi : TableInv rep t) {k i : Nat} {x sta : Sta} (hk : t.stas[k]? = some x) (hik : i ≠ k)
    (hs : t.stas[i]? = some sta) (ho : sta.online = true) : sta.addr ≠ x.addr := by
  intro ha
  cases hx : x.online with
  | true => exact hik (hi.unique x.addr i k ⟨sta, hs, ho, ha⟩ ⟨x, hk, hx, rfl⟩)
  | false => exact (hi.online i sta hs ho).1 (ha.trans (hi.offline k x hk hx))

theorem TableInv.touch (hi : TableInv rep t) {mac : Mac} {k : Nat} (hk : libotaFindSta t mac = some k) {f : Sta → Sta}
    (hf : Touches f) : TableInv rep (t.modify k f) := by
  obtain ⟨x, he⟩ := exists_entry hk
  obtain ⟨haddr, hon, hchip, hver, hsvn⟩ := hf x
  refine hi.write he.get (fun ho => ?_) (fun ho => ?_) (fun i sta hik hs ho => ⟨?_, rfl⟩) ?_
  · rw [haddr]
    exact hi.offline k x he.get (hon ▸ ho)
  · obtain ⟨hne, m, hm, hc, hv, hsv⟩ := hi.online k x he.get (hon ▸ ho)
    rw [haddr]
    exact ⟨hne, m, hm, hchip.trans hc, hver.trans hv, hsvn.trans hsv⟩
  · rw [haddr]
    exact hi.addr_ne he.get hik hs ho
  · have hc := onlineCount_modify he.get f
    rw [hon] at hc
    exact hi.count.trans (Nat.add_right_cancel hc).symm

def withReport (rep : Mac → Option Mem) (m : Mem) (mac : Mac) : Option Mem := if rxSrc m = mac then some m else rep mac

theorem withReport_of_ne {m : Mem} {mac : Mac} (h : mac ≠ rxSrc m) : withReport rep m mac = rep mac :=
  if_neg h.symm

theorem TableInv.renew (hi : TableInv rep t) {m : Mem} (hne : rxSrc m ≠ zeroMac) {k : Nat}
    (hk : libotaFindSta t (rxSrc m) = some k) : TableInv (withReport rep m) (t.modify k (Sta.report m)) := by
  obtain ⟨x, he⟩ := exists_entry hk
  have hx : x.online = true := hi.online_of_addr he.get (he.addr ▸ hne)
  refine hi.write he.get (fun ho => nomatch ho) (fun _ => ?_) (fun i sta hik hs ho => ?_) ?_
  · refine ⟨he.addr ▸ hne, m, ?_, rfl, rfl, rfl⟩
    exact if_pos he.addr.symm
  · have ha := hi.addr_ne he.get hik hs ho
    exact ⟨ha, withReport_of_ne (he.addr ▸ ha)⟩
  · have hc := onlineCount_modify he.get (Sta.report m)
    rw [if_pos hx, if_pos (show (x.report m).online = true from rfl)] at hc
    exact hi.count.trans (Nat.add_right_cancel hc).symm

theorem TableInv.enrol (hi : TableInv rep t) {m : Mem} (hne : rxSrc m ≠ zeroMac)
    (hnone : libotaFindSta t (rxSrc m) = none) {k : Nat} (hk : libotaNewSta t = some k) :
    TableInv (withReport rep m) { t.modify k fun _ => newEntry m with staCount := t.staCount + 1 } := by
  obtain ⟨x, hget, hx⟩ := newSta_some hk
  refine hi.write hget (fun ho => nomatch ho) (fun _ => ?_) (fun i sta _ hs _ => ?_) ?_
  · refine ⟨hne, m, ?_, rfl, rfl, rfl⟩
    exact if_pos rfl
  · have ha := findSta_none hnone hs
    exact ⟨ha, withReport_of_ne ha⟩
  · have hc := onlineCount_modify hget fun _ => newEntry m
    rw [if_neg (by rw [hx]; decide), if_pos (show (newEntry m).online = true from rfl)] at hc
    rw [hi.count]
    exact hc.symm

theorem TableInv.full (hi : TableInv rep t) {m : Mem} (hnone : libotaFindSta t (rxSrc m) = none) :
    TableInv (withReport rep m) t := by
  refine ⟨hi.offline, fun i sta hs ho => ?_, hi.unique, hi.count⟩
  rw [withReport_of_ne (findSta_none hnone hs)]
  exact hi.online i sta hs ho

end Inv

/-- The frame does not come from the address 0. -/
def Ev.FromStation : Ev → Prop
  | .rx m _ => rxSrc m ≠ zeroMac
  | _ => True

instance : DecidablePred Ev.FromStation
  | .rx m _ => inferInstanceAs (Decidable (rxSrc m ≠ zeroMac))
  | .sendFwData .. => .isTrue trivial
  | .scan => .isTrue trivial

theorem lastReport_append (evs : List Ev) (ev : Ev) (mac : Mac) :
    lastReport (evs ++ [ev]) mac = (ev.report mac).or (lastReport evs mac) := by
  unfold lastReport
  rw [List.reverse_append, List.reverse_singleton, List.singleton_append, List.findSome?_cons]
  cases ev.report mac <;> rfl

theorem lastReport_report (evs : List Ev) {m : Mem} {len : Int} (hm : IsReport m len) :
    lastReport (evs ++ [.rx m len]) = withReport (lastReport evs) m := by
  ext1 mac
  rw [lastReport_append, withReport]
  by_cases hs : rxSrc m = mac
  · subst hs
    rw [report_self hm, if_pos rfl, Option.some_or]
  · rw [report_ne len hs, if_neg hs, Option.none_or]

theorem lastReport_other (evs : List Ev) {ev : Ev} (hev : ∀ mac, ev.report mac = none) :
    lastReport (evs ++ [ev]) = lastReport evs := by
  ext1 mac
  rw [lastReport_append, hev mac]
  rfl

theorem TableInv.step {evs : List Ev} {ev : Ev} {t t' : Libota} (hi : TableInv (lastReport evs) t)
    (hsrc : ev.FromStation) (hc : TableCase t ev t') : TableInv (lastReport (evs ++ [ev])) t' := by
  induction hc with
  | keep ev hev =>
    rw [lastReport_other evs hev]
    exact hi
  | touch ev hev mac k hk f hf =>
    rw [lastReport_other evs hev]
    exact hi.touch hk hf
  | renew m len hm k hk =>
    rw [lastReport_report evs hm]
    exact hi.renew hsrc hk
  | enrol m len hm hnone k hk =>
    rw [lastReport_report evs hm]
    exact hi.enrol hsrc hnone hk
  | full m len hm hnone _ =>
    rw [lastReport_report evs hm]
    exact hi.full hnone

theorem runTable_append (h : Host) (t : Libota) (evs evs' : List Ev) :
    runTable h t (evs ++ evs') = runTable h (runTable h t evs) evs' := List.foldl_append

/-- The run lemma; `pre` is the run so far. -/
theorem TableInv.run (h : Host) {pre : List Ev} {t : Libota} (hi : TableInv (lastReport pre) t) (evs : List Ev)
    (hsrc : ∀ ev ∈ evs, ev.FromStation) : TableInv (lastReport (pre ++ evs)) (runTable h t evs) := by
  induction evs generalizing pre t with
  | nil =>
    rw [List.append_nil]
    exact hi
  | cons ev evs ih =>
    rw [List.append_cons]
    apply ih
    · exact hi.step (hsrc ev List.mem_cons_self) (ev_cases h t ev)
    · intro e he
      exact hsrc e (List.mem_cons_of_mem _ he)

/-- The table that `libota_init` and `libota_scan(1)` leave. -/
def Starts (t : Libota) : Prop := t = libotaInit ∨ ∃ t', t = libotaScan true t'

theorem Starts.tableInv {t : Libota} (h : Starts t) : TableInv (lastReport []) t := by
  rcases h with rfl | ⟨t', rfl⟩
  · exact tableInv_init _
  · exact tableInv_init _

/-! ## Entries stay -/

theorem EntryOf.step {t t' : Libota} {ev : Ev} {mac : Mac} {i : Nat} (he : EntryOf t mac i) (hc : TableCase t ev t') :
    EntryOf t' mac i := by
  obtain ⟨sta, hs, ho, ha⟩ := he
  have hmod : ∀ (k : Nat) (f : Sta → Sta), (t.modify k f).stas[i]? = some (if k = i then f sta else sta) := by
    intro k f
    rw [modify_get, hs]
    split <;> rfl
  induction hc with
  | keep ev hev => exact ⟨sta, hs, ho, ha⟩
  | touch ev hev mac k hk f hf =>
    refine ⟨_, hmod k f, ?_⟩
    split
    · exact ⟨(hf sta).2.1.trans ho, (hf sta).1.trans ha⟩
    · exact ⟨ho, ha⟩
  | renew m len hm k hk =>
    refine ⟨_, hmod k _, ?_⟩
    split
    · exact ⟨rfl, ha⟩
    · exact ⟨ho, ha⟩
  | enrol m len hm hnone k hk =>
    obtain ⟨x, hx, hoff⟩ := newSta_some hk
    -- the entry that is taken is not online
    have hki : k ≠ i := by
      rintro rfl
      rw [Option.some.inj (hx.symm.trans hs), ho] at hoff
      cases hoff
    exact ⟨sta, (hmod k _).trans (by rw [if_neg hki]), ho, ha⟩
  | full m len hm hnone _ => exact ⟨sta, hs, ho, ha⟩

theorem EntryOf.run {h : Host} {t : Libota} {mac : Mac} {i : Nat} (he : EntryOf t mac i) (evs : List Ev) :
    EntryOf (runTable h t evs) mac i := by
  induction evs generalizing t with
  | nil => exact he
  | cons ev evs ih => exact ih (he.step (ev_cases h t ev))

/-- A report that finds its station, or a free entry, leaves an entry of the station. -/
theorem entryOf_report {rep : Mac → Option Mem} {t t' : Libota} (hi : TableInv rep t) {m : Mem} {len : Int}
    (hm : IsReport m len) (hne : rxSrc m ≠ zeroMac)
    (hroom : onlineCount t < otaStaCount ∨ ∃ i, EntryOf t (rxSrc m) i) (hc : TableCase t (.rx m len) t') :
    ∃ i, EntryOf t' (rxSrc m) i := by
  cases hc with
  | keep _ hev => exact absurd ((report_self hm).symm.trans (hev _)) nofun
  | touch _ hev => exact absurd ((report_self hm).symm.trans (hev _)) nofun
  | renew _ _ _ k hk =>
    obtain ⟨x, he⟩ := exists_entry hk
    have hx : EntryOf t (rxSrc m) k := ⟨x, he.get, hi.online_of_addr he.get (he.addr ▸ hne), he.addr⟩
    exact ⟨k, hx.step (.renew m len hm k hk)⟩
  | enrol _ _ _ hnone k hk =>
    obtain ⟨x, hx, -⟩ := newSta_some hk
    refine ⟨k, newEntry m, ?_, rfl, rfl⟩
    show (t.modify k fun _ => newEntry m).stas[k]? = _
    rw [modify_get, if_pos rfl, hx]
    rfl
  | full _ _ _ hnone hnew =>
    rcases hroom with hlt | ⟨i, hs⟩
    · exact absurd (newSta_none.mp hnew) (Nat.ne_of_lt hlt)
    · exact ⟨i, hs⟩

theorem report_full {t t' : Libota} {m : Mem} {len : Int} (hfull : onlineCount t = otaStaCount)
    (hnew : ∀ i, ¬ EntryOf t (rxSrc m) i) (hc : TableCase t (.rx m len) t') (hm : IsReport m len) : t' = t := by
  have hall : ∀ {i : Nat} {sta : Sta}, t.stas[i]? = some sta → sta.online = true := by
    intro i sta hs
    rw [← t.len, onlineCount, List.countP_eq_length] at hfull
    exact hfull sta (List.mem_of_getElem? hs)
  cases hc with
  | keep => rfl
  | full => rfl
  | touch _ hev => exact absurd ((report_self hm).symm.trans (hev _)) nofun
  | renew _ _ _ k hk =>
    obtain ⟨x, he⟩ := exists_entry hk
    exact absurd ⟨x, he.get, hall he.get, he.addr⟩ (hnew k)
  | enrol _ _ _ hnone k hk =>
    rw [newSta_none.mpr hfull] at hk
    cases hk

/-! ## The table of a run -/

/-- The entry of `mac`, and no other entry has its address. -/
def OnlyEntry (t : Libota) (mac : Mac) (i : Nat) : Prop :=
  EntryOf t mac i ∧ ∀ (j : Nat) (sta : Sta), t.stas[j]? = some sta → sta.addr = mac → j = i

theorem EntryOf.only {rep : Mac → Option Mem} {t : Libota} (hi : TableInv rep t) {mac : Mac} {i : Nat}
    (he : EntryOf t mac i) : OnlyEntry t mac i := by
  refine ⟨he, fun j sta hs ha => hi.unique mac j i ⟨sta, hs, ?_, ha⟩ he⟩
  obtain ⟨x, hx, ho, hxa⟩ := he
  exact hi.online_of_addr hs (ha.trans hxa.symm ▸ (hi.online i x hx ho).1)

theorem station_table (h : Host) (t : Libota) (ht : Starts t) (evs : List Ev) (hsrc : ∀ ev ∈ evs, ev.FromStation) :
    (∀ mac i j, EntryOf (runTable h t evs) mac i → EntryOf (runTable h t evs) mac j → i = j) ∧
    (runTable h t evs).staCount = onlineCount (runTable h t evs) ∧
    (runTable h t evs).staCount ≤ otaStaCount ∧
    (∀ (i : Nat) (sta : Sta), (runTable h t evs).stas[i]? = some sta → sta.online = true →
      ∃ m, lastReport evs sta.addr = some m ∧ Reported m sta) ∧
    (∀ pre m len post, evs = pre ++ .rx m len :: post → IsReport m len →
      onlineCount (runTable h t pre) < otaStaCount ∨ (∃ i, EntryOf (runTable h t pre) (rxSrc m) i) →
      ∃ i, OnlyEntry (runTable h t evs) (rxSrc m) i) ∧
    (∀ pre m len post, evs = pre ++ .rx m len :: post → IsReport m len →
      onlineCount (runTable h t pre) = otaStaCount → (∀ i, ¬ EntryOf (runTable h t pre) (rxSrc m) i) →
      runTable h t (pre ++ [.rx m len]) = runTable h t pre) := by
  have hi : TableInv (lastReport evs) (runTable h t evs) := ht.tableInv.run h evs hsrc
  refine ⟨hi.unique, hi.count, hi.count ▸ onlineCount_le _, fun i sta hs ho => (hi.online i sta hs ho).2, ?_, ?_⟩
  · rintro pre m len post rfl hm hroom
    have hipre : TableInv (lastReport pre) (runTable h t pre) :=
      ht.tableInv.run h pre fun e he => hsrc e (List.mem_append_left _ he)
    have hne : rxSrc m ≠ zeroMac := hsrc (.rx m len) (List.mem_append_right _ List.mem_cons_self)
    obtain ⟨i, he⟩ := entryOf_report hipre hm hne hroom (ev_cases h _ (.rx m len))
    refine ⟨i, EntryOf.only hi ?_⟩
    rw [runTable_append]
    exact he.run post
  · rintro pre m len post - hm hfull hnew
    rw [runTable_append]
    exact report_full hfull hnew (ev_cases h _ (.rx m len)) hm

def exampleReport : Mem :=
  Mem.ofList [0xff, 0xff, 0xff, 0xff, 0xff, 0xff, 2, 0, 0, 0, 0, 1, 0x48, 0x47, 3, 0, 2, 0, 0, 1, 0x40, 2, 0, 0, 0, 0,
    4, 0xd2]

/-- The station reports, the table is scanned and the station reports again. -/
theorem station_table_twoReports :
    ∃ i, OnlyEntry (runTable ⟨.little, true⟩ libotaInit [.rx exampleReport 28, .scan, .rx exampleReport 28])
      (rxSrc exampleReport) i := by
  have htable := station_table ⟨.little, true⟩ libotaInit (.inl rfl)
    [.rx exampleReport 28, .scan, .rx exampleReport 28] (by decide)
  obtain ⟨-, -, -, -, hentry, -⟩ := htable
  exact hentry [] exampleReport 28 _ rfl (by decide) (.inl (by decide))

end HgicFmac.Hgota
