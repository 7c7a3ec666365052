import HgicFmac.Iwpriv.Set

/-!
# What a set request must hold for its handler

* `string_runs`, `raw_runs`, `mac_runs`, … : the families;
* `PairedText`, `BlencText`, `Setting.Ok` : the values that each handler reads without a fault;
* `set_request_covered` : a request runs without a fault exactly for them.
-/

namespace HgicFmac.Iwpriv
open Lib Fwctrl

section
variable {env : SetEnv} {ifidx : Nat} {v : List UInt8}

/-! ## The families -/

theorem cstr_length_le (v : List UInt8) : (cstr v).length ≤ v.length := (List.takeWhile_prefix _).length_le

theorem string_runs (id : Nat) : Runs (setString id env ifidx v) :=
  (setBytesAt_runs (Nat.zero_le _)).mpr fun _ => (Nat.zero_add _).symm ▸ cstr_length_le v

theorem raw_runs (id : Nat) : Runs (setRaw id env ifidx v) :=
  (setBytesAt_runs (Nat.zero_le _)).mpr fun _ => Nat.le_of_eq (Nat.zero_add _)

theorem mac_runs (id : Nat) : Runs (setMac id env ifidx v) ↔ MacText v :=
  (runs_bind_of fun _ => runs_ok _).trans (pickMacaddr_runs v)

theorem macOfSta_runs (id : Nat) : Runs (setMacOfSta id env ifidx v) ↔ (ifidx = hgicWdevIdSta → MacText v) := by
  unfold setMacOfSta
  split
  · next h => exact iff_of_true (runs_ok _) fun hi => absurd hi h
  · next h => rw [mac_runs, forall_prop_of_true (not_not.mp h)]

theorem nonempty_runs (h : SetHandler) : Runs (setNonempty h env ifidx v) ↔ (cstr v ≠ [] → Runs (h env ifidx v)) := by
  unfold setNonempty
  split
  · next he => exact iff_of_true (runs_ok _) fun hn => absurd he hn
  · next he => rw [forall_prop_of_true he]

theorem cellsAt_within {off n : Nat} (h : off + n ≤ v.length) : ∃ cs, cellsAt v off n = .ok cs ∧ none ∉ cs := by
  obtain ⟨cs, hcs⟩ := cellsAt_runs.mpr (Nat.le_succ_of_le h)
  refine ⟨cs, hcs, fun hm => ?_⟩
  by_cases hn : n = 0
  · rw [List.eq_nil_of_length_eq_zero ((length_cells hcs).trans hn)] at hm
    cases hm
  · exact absurd ((none_mem_cells hcs (Nat.pos_of_ne_zero hn)).mp hm) (Nat.not_lt.mpr h)

/-! ## Addresses with a number behind them -/

theorem macNumber_runs (f : List UInt8 × Bool → List UInt8 → Res) :
    Runs (do let addr ← hgicPickMacaddr v; let text ← textAt v 18; return f addr text) ↔ MacText v ∧ 18 ≤ v.length := by
  rw [runs_bind, ← pickMacaddr_runs]
  constructor
  · rintro ⟨addr, ha, h⟩
    exact ⟨⟨addr, ha⟩, textAt_runs.mp ((runs_bind_of fun _ => runs_ok _).mp h)⟩
  · rintro ⟨⟨addr, ha⟩, h⟩
    exact ⟨addr, ha, (runs_bind_of fun _ => runs_ok _).mpr (textAt_runs.mpr h)⟩

/-! ## Lists of addresses -/

/-- Each text that the loop comes to is one that `hgic_pick_macaddr` can read; it goes on behind an address. -/
def PairedText : (fuel : Nat) → (ptr : List UInt8) → Prop
  | 0, _ => True
  | _ + 1, [] => True
  | n + 1, b :: s => b ≠ 0 → match strchr 44 (b :: s) with
    | some (field, rest) => MacText (field ++ 0 :: rest) ∧
      ∀ addr, hgicPickMacaddr (field ++ 0 :: rest) = .ok (addr, true) → PairedText n rest
    | none => MacText (b :: s)

theorem pairedLoop_runs (n : Nat) (ptr : List UInt8) : Runs (pairedLoop n ptr) ↔ PairedText n ptr := by
  induction n generalizing ptr with
  | zero => exact iff_of_true (runs_ok _) trivial
  | succ n ih =>
    cases ptr with
    | nil => exact iff_of_true (runs_ok _) trivial
    | cons b s =>
      rw [pairedLoop, PairedText]
      split
      · next hb => exact iff_of_true (runs_ok _) fun hn => absurd hb hn
      next hb =>
      rw [forall_prop_of_true hb]
      cases strchr 44 (b :: s) with
      | some r =>
        obtain ⟨field, rest⟩ := r
        refine runs_bind.trans ⟨?_, ?_⟩
        · rintro ⟨⟨addr, six⟩, hp, h⟩
          refine ⟨(pickMacaddr_runs _).mp ⟨_, hp⟩, fun addr' hp' => ?_⟩
          cases hp.symm.trans hp'
          exact (ih rest).mp (runs_map.mp h)
        · rintro ⟨hm, h⟩
          obtain ⟨⟨addr, six⟩, hp⟩ := (pickMacaddr_runs _).mpr hm
          refine ⟨_, hp, ?_⟩
          cases six with
          | true => exact runs_map.mpr ((ih rest).mpr (h addr hp))
          | false => exact runs_ok _
      | none => exact (runs_bind_of fun _ => runs_ok _).trans (pickMacaddr_runs _)

theorem pairedStas_runs :
    Runs (hgicIwprivSetPairedStas env ifidx v) ↔ (cstr v ≠ [] → env.kmem = true → PairedText v.length v) := by
  refine (nonempty_runs _).trans (imp_congr_right fun _ => ?_)
  split
  · next h => rw [runs_map, pairedLoop_runs, forall_prop_of_true h]
  · next h => exact iff_of_true (runs_ok _) fun hn => absurd hn h

/-! ## Raw bytes -/

theorem mask_runs (off cap id : Nat) (hoff : off ≤ 128) (f : UInt8 → Nat → List UInt8) :
    Runs (do
      let offset ← byteAt v 0
      let maskLen ← lenSub (v.take 128) off
      let mask ← cellsAt v off (min maskLen cap)
      setCells env ifidx id ((f offset maskLen).map some ++ mask)) ↔ off ≤ v.length := by
  obtain ⟨b, hb⟩ := byteAt_runs.mpr (Nat.zero_le v.length)
  have hlen : (v.take 128).length = min 128 v.length := List.length_take
  rw [hb]
  show Runs (lenSub (v.take 128) off >>= _) ↔ _
  unfold lenSub
  by_cases h : off ≤ v.length
  · rw [if_pos (by omega)]
    have hin : off + min ((v.take 128).length - off) cap ≤ v.length := by omega
    obtain ⟨cs, hcs, hn⟩ := cellsAt_within hin
    refine iff_of_true (runs_bind.mpr ⟨_, rfl, runs_bind.mpr ⟨cs, hcs, setCells_runs.mpr fun _ hm => ?_⟩⟩) h
    rcases List.mem_append.mp hm with hm | hm
    · obtain ⟨x, -, hx⟩ := List.mem_map.mp hm
      cases hx
    · exact hn hm
  · rw [if_neg (by omega)]
    exact iff_of_false nofun h

theorem wkdataMask_runs : Runs (hgicIwprivSetWkdataMask env ifidx v) ↔ 1 ≤ v.length :=
  mask_runs 1 16 _ (by decide) fun offset _ => le16 (charVal env.plat offset)

theorem hbdataMask_runs : Runs (hgicIwprivSetHbdataMask env ifidx v) ↔ 2 ≤ v.length :=
  mask_runs 2 64 _ (by decide) fun offset n => le16 (charVal env.plat offset) ++ le16 (min n 64 : Nat)

/-- A byte and the `n` bytes behind it, as one structure, with what is done with it. -/
theorem headed_runs {n : Nat} (hn : 0 < n) {k : List Cell → Run Res} {p : Prop}
    (hk : ∀ cs, cs.length = n + 1 → (Runs (k cs) ↔ (p → none ∉ cs))) :
    Runs (do let x ← cellsAt v 0 1; let xs ← cellsAt v 1 n; k (x ++ xs)) ↔
      n ≤ v.length ∧ (p → n + 1 ≤ v.length) := by
  by_cases h : n ≤ v.length
  · obtain ⟨x, hx, hxn⟩ := cellsAt_within (show 0 + 1 ≤ v.length by omega)
    obtain ⟨xs, hxs⟩ := cellsAt_runs.mpr (show 1 + n ≤ v.length + 1 by omega)
    have hlen : (x ++ xs).length = n + 1 := by
      rw [List.length_append, length_cells hx, length_cells hxs, Nat.add_comm]
    have hmem : none ∈ x ++ xs ↔ v.length < n + 1 := by
      rw [List.mem_append, none_mem_cells hxs hn, Nat.add_comm 1 n]
      exact or_iff_right hxn
    rw [hx, and_iff_right h]
    show Runs (cellsAt v 1 n >>= _) ↔ _
    rw [hxs]
    show Runs (k (x ++ xs)) ↔ _
    rw [hk _ hlen, hmem, Nat.not_lt]
  · refine iff_of_false ?_ fun hn' => h hn'.1
    intro hr
    obtain ⟨x, -, hr⟩ := runs_bind.mp hr
    obtain ⟨xs, hxs, -⟩ := runs_bind.mp hr
    have := cellsAt_runs.mp ⟨xs, hxs⟩
    omega

theorem sends_short {r : Reply} {n : Nat} (hn : n ≤ maxCmdLen) : r.sends n = r.alloc := by
  unfold Reply.sends
  rw [decide_eq_true hn, Bool.true_and]

theorem userEdca_runs : Runs (hgicIwprivSetUserEdca env ifidx v) ↔
    8 ≤ v.length ∧ (env.kmem = true ∧ env.r.alloc = true → 9 ≤ v.length) := by
  refine headed_runs (n := 8) (by decide)
    (k := fun cs => if env.kmem then setCells env ifidx HgicCmd.setUserEdca cs else .ok ⟨enomem, none⟩) fun cs hlen => ?_
  split
  · next h => rw [setCells_runs, hlen, sends_short (by decide), and_iff_right h]
  · next h => exact iff_of_true (runs_ok _) fun hn => absurd hn.1 h

theorem rmeshDevice_runs : Runs (hgicIwprivSetRmeshDevice env ifidx v) ↔
    6 ≤ v.length ∧ (env.r.alloc = true → 7 ≤ v.length) := by
  apply headed_runs (n := 6) (by decide)
  intro cs hlen
  rw [setCells_runs, hlen, sends_short (by decide)]

theorem ccaParam_runs : Runs (hgicIwprivSetCcaParam env ifidx v) ↔ (env.r.alloc = true → 4 ≤ v.length) := by
  apply (setBytesAt_runs (Nat.zero_le _)).trans
  rw [sends_short (by decide), Nat.zero_add]

/-- A pointer to the bytes behind the first `off`, with `count - off`. -/
theorem rest_runs (id : Nat) {off : Nat} : Runs (lenSub v off >>= setBytesAt env ifidx id v off) ↔ off ≤ v.length := by
  unfold lenSub
  split
  · next h =>
    refine iff_of_true ((setBytesAt_runs h).mpr fun _ => ?_) h
    omega
  · next h => exact iff_of_false nofun h

theorem custDrvdata_runs : Runs (hgicIwprivSetCustomerDvrdata env ifidx v) ↔ 2 ≤ v.length := by
  unfold hgicIwprivSetCustomerDvrdata
  constructor
  · intro h
    obtain ⟨lo, -, h⟩ := runs_bind.mp h
    obtain ⟨hi, -, h⟩ := runs_bind.mp h
    exact (rest_runs _).mp h
  · intro h
    obtain ⟨lo, hlo⟩ := byteAt_runs.mpr (Nat.zero_le v.length)
    obtain ⟨hi, hhi⟩ := byteAt_runs.mpr (show 1 ≤ v.length by omega)
    exact runs_bind.mpr ⟨lo, hlo, runs_bind.mpr ⟨hi, hhi, (rest_runs _).mpr h⟩⟩

/-! ## Keywords -/

def Starts (v : List UInt8) (key : String) : Prop := bytes key <+: v

instance (v : List UInt8) (key : String) : Decidable (Starts v key) := inferInstanceAs (Decidable (_ <+: _))

theorem Starts.length_le {key : String} (h : Starts v key) : (bytes key).length ≤ v.length := List.IsPrefix.length_le h

/-- `memcmp` with a keyword of `n` bytes reads no more than the value and its terminating 0. -/
def Reads (env : SetEnv) (v : List UInt8) (n : Nat) : Prop := env.plat.memcmpAll = true → n ≤ v.length + 1

theorem onKey_hit {key : String} {hit miss : Run Res} (h : Starts v key) :
    Runs (onKey env.plat v key hit miss) ↔ Runs hit := by
  have hlen := h.length_le
  unfold onKey memcmp
  rw [if_neg (by omega)]
  show Runs (if List.isPrefixOf _ v = true then hit else miss) ↔ _
  rw [if_pos (List.isPrefixOf_iff_prefix.mpr h)]

theorem onKey_miss {key : String} {n : Nat} (hn : (bytes key).length = n) {hit miss : Run Res} (h : ¬ Starts v key) :
    Runs (onKey env.plat v key hit miss) ↔ Reads env v n ∧ Runs miss := by
  unfold onKey memcmp Reads
  rw [hn]
  by_cases hm : env.plat.memcmpAll = true ∧ v.length + 1 < n
  · rw [if_pos hm]
    exact iff_of_false nofun fun hn => absurd (hn.1 hm.1) (Nat.not_le.mpr hm.2)
  · rw [if_neg hm, and_iff_right fun hp => Nat.not_lt.mp fun hl => hm ⟨hp, hl⟩]
    show Runs (if List.isPrefixOf _ v = true then hit else miss) ↔ _
    rw [if_neg fun hn => h (List.isPrefixOf_iff_prefix.mp hn)]

theorem Starts.ne {k k' : String} (h : Starts v k) (hk : ¬ bytes k <+: bytes k' ∧ ¬ bytes k' <+: bytes k) :
    ¬ Starts v k' := by
  intro h'
  rcases List.prefix_or_prefix_of_prefix h h' with hp | hp
  · exact hk.1 hp
  · exact hk.2 hp

theorem hciData_runs : Runs (hgicFwctrlSendHciData env v) ↔ 10 ≤ v.length := by
  unfold hgicFwctrlSendHciData
  rw [runs_bind, ← lenSub_runs]
  constructor
  · rintro ⟨type, -, h⟩
    exact (runs_bind_of fun _ => runs_ok _).mp h
  · intro h
    obtain ⟨type, ht⟩ := byteAt_runs.mpr (Nat.le_of_succ_le (lenSub_runs.mp h))
    exact ⟨type, ht, (runs_bind_of fun _ => runs_ok _).mpr h⟩

/-- An address and an HCI packet are complete. If `memcmp` reads all its bytes, the value is as long as each keyword
that it is compared with. -/
def BlencText (env : SetEnv) (v : List UInt8) : Prop :=
  (Starts v "DEV_ADDR:" → env.r.alloc = true → 15 ≤ v.length) ∧
  (Starts v "HCI_DATA:" → 10 ≤ v.length) ∧
  (env.plat.memcmpAll = true →
    (Starts v "EN:" ∨ Starts v "DATA:" ∨ Starts v "DEV_ADDR:" ∨ Starts v "ADV_DATA:" ∨ Starts v "SCAN_RESP:") ∨
    (Starts v "ADV_INT:" ∨ Starts v "ADV_EN:" ∨ Starts v "HCI_DATA:") ∧ 9 ≤ v.length ∨ 10 ≤ v.length)

theorem reads_of_le {n : Nat} (h : n ≤ v.length + 1) : Reads env v n := fun _ => h

theorem Reads.mono {n k : Nat} (h : Reads env v k) (hn : n ≤ k) : Reads env v n := fun hp => Nat.le_trans hn (h hp)

/-- The last keywords, behind the comparison with the ten bytes of `SCAN_RESP:`. -/
theorem blencAdv_runs (hr : Reads env v 10) : Runs (blencAdv env ifidx v) ↔
    (Starts v "HCI_DATA:" → 10 ≤ v.length) ∧
      (Starts v "ADV_INT:" ∨ Starts v "ADV_EN:" ∨ Starts v "HCI_DATA:" ∨ Reads env v 11) := by
  unfold blencAdv
  by_cases hint : Starts v "ADV_INT:"
  · rw [onKey_hit hint]
    exact iff_of_true (runs_ok _) ⟨fun h => absurd hint (h.ne (by decide)), .inl hint⟩
  rw [onKey_miss (n := 8) rfl hint, and_iff_right (hr.mono (by decide))]
  by_cases haen : Starts v "ADV_EN:"
  · rw [onKey_hit haen]
    exact iff_of_true (runs_ok _) ⟨fun h => absurd haen (h.ne (by decide)), .inr (.inl haen)⟩
  rw [onKey_miss (n := 7) rfl haen, and_iff_right (hr.mono (by decide))]
  by_cases hhci : Starts v "HCI_DATA:"
  · rw [onKey_hit hhci, hciData_runs]
    exact ⟨fun h => ⟨fun _ => h, .inr (.inr (.inl hhci))⟩, fun h => h.1 hhci⟩
  rw [onKey_miss (n := 9) rfl hhci, and_iff_right (hr.mono (by decide))]
  by_cases hfilter : Starts v "ADV_FILTER:"
  · have hlen : 11 ≤ v.length := hfilter.length_le
    rw [onKey_hit hfilter]
    exact iff_of_true (runs_ok _) ⟨fun h => absurd h hhci, .inr (.inr (.inr (reads_of_le (by omega))))⟩
  rw [onKey_miss (n := 11) rfl hfilter, and_iff_left (runs_ok _)]
  refine ⟨fun h => ⟨fun hn => absurd hn hhci, .inr (.inr (.inr h))⟩, fun h => ?_⟩
  exact ((h.2.resolve_left hint).resolve_left haen).resolve_left hhci

theorem blenc_runs : Runs (blenc env ifidx v) ↔ BlencText env v := by
  unfold blenc
  by_cases hen : Starts v "EN:"
  · rw [onKey_hit hen]
    refine iff_of_true (runs_ok _) ⟨fun h => absurd hen (h.ne (by decide)), fun h => absurd hen (h.ne (by decide)), ?_⟩
    exact fun _ => .inl (.inl hen)
  rw [onKey_miss (n := 3) rfl hen]
  by_cases hdata : Starts v "DATA:"
  · have hlen : 5 ≤ v.length := hdata.length_le
    rw [onKey_hit hdata]
    refine iff_of_true ⟨reads_of_le (by omega), (rest_runs _).mpr hlen⟩ ⟨?_, ?_, ?_⟩
    · intro h
      exact absurd hdata (h.ne (by decide))
    · intro h
      exact absurd hdata (h.ne (by decide))
    · intro _
      exact .inl (.inr (.inl hdata))
  rw [onKey_miss (n := 5) rfl hdata]
  by_cases hdev : Starts v "DEV_ADDR:"
  · have hlen : 9 ≤ v.length := hdev.length_le
    rw [onKey_hit hdev, and_iff_right (reads_of_le (by omega)), and_iff_right (reads_of_le (by omega)),
      setBytesAt_runs hlen, sends_short (by decide)]
    refine ⟨fun h => ⟨fun _ => h, ?_, ?_⟩, fun h => h.1 hdev⟩
    · intro h
      exact absurd hdev (h.ne (by decide))
    · intro _
      exact .inl (.inr (.inr (.inl hdev)))
  rw [onKey_miss (n := 9) rfl hdev]
  by_cases hadv : Starts v "ADV_DATA:"
  · have hlen : 9 ≤ v.length := hadv.length_le
    rw [onKey_hit hadv]
    refine iff_of_true ⟨reads_of_le (by omega), reads_of_le (by omega), reads_of_le (by omega), (rest_runs _).mpr hlen⟩
      ⟨fun h => absurd h hdev, ?_, ?_⟩
    · intro h
      exact absurd hadv (h.ne (by decide))
    · intro _
      exact .inl (.inr (.inr (.inr (.inl hadv))))
  rw [onKey_miss (n := 9) rfl hadv]
  by_cases hscan : Starts v "SCAN_RESP:"
  · have hlen : 10 ≤ v.length := hscan.length_le
    rw [onKey_hit hscan]
    refine iff_of_true ⟨reads_of_le (by omega), reads_of_le (by omega), reads_of_le (by omega), reads_of_le (by omega),
      (rest_runs _).mpr hlen⟩ ⟨fun h => absurd h hdev, fun _ => hlen, ?_⟩
    exact fun _ => .inr (.inr hlen)
  rw [onKey_miss (n := 10) rfl hscan]
  constructor
  · rintro ⟨-, -, -, -, hr, h⟩
    obtain ⟨hhci, hkey⟩ := (blencAdv_runs hr).mp h
    refine ⟨fun h => absurd h hdev, hhci, fun hp => .inr ?_⟩
    have h9 : 9 ≤ v.length := Nat.le_of_succ_le_succ (hr hp)
    rcases hkey with h | h | h | h
    · exact .inl ⟨.inl h, h9⟩
    · exact .inl ⟨.inr (.inl h), h9⟩
    · exact .inl ⟨.inr (.inr h), h9⟩
    · exact .inr (Nat.le_of_succ_le_succ (h hp))
  · rintro ⟨-, hhci, hp⟩
    have hp : env.plat.memcmpAll = true → (Starts v "ADV_INT:" ∨ Starts v "ADV_EN:" ∨ Starts v "HCI_DATA:") ∧
        9 ≤ v.length ∨ 10 ≤ v.length := fun h => (hp h).resolve_left fun hn => by
      rcases hn with h | h | h | h | h
      · exact hen h
      · exact hdata h
      · exact hdev h
      · exact hadv h
      · exact hscan h
    have hr : Reads env v 10 := fun h => by
      have := hp h
      omega
    refine ⟨hr.mono (by decide), hr.mono (by decide), hr.mono (by decide), hr.mono (by decide), hr, ?_⟩
    refine (blencAdv_runs hr).mpr ⟨hhci, ?_⟩
    by_cases hk : Starts v "ADV_INT:" ∨ Starts v "ADV_EN:" ∨ Starts v "HCI_DATA:"
    · exact hk.imp_right (Or.imp_right .inl)
    · refine .inr (.inr (.inr fun h => ?_))
      have := (hp h).resolve_left fun hn => hk hn.1
      omega

/-! ## The table -/

def Setting.Ok (env : SetEnv) (ifidx : Nat) (v : List UInt8) : Setting → Prop
  | .bssid | .resetSta => ifidx = hgicWdevIdSta → MacText v
  | .disassocSta | .unpair | .wakeup | .roamingBssid | .rmeshMeshid => MacText v
  | .joinGroup | .bssDisable => MacText v ∧ 18 ≤ v.length
  | .pairedStas => cstr v ≠ [] → env.kmem = true → PairedText v.length v
  | .wkdataMask => 1 ≤ v.length
  | .hbdataMask => 2 ≤ v.length
  | .blenc => BlencText env v
  | .userEdca => 8 ≤ v.length ∧ (env.kmem = true ∧ env.r.alloc = true → 9 ≤ v.length)
  | .ccaParam => env.r.alloc = true → 4 ≤ v.length
  | .custDrvdata => 2 ≤ v.length
  | .rmeshDevice => 6 ≤ v.length ∧ (env.r.alloc = true → 7 ≤ v.length)
  | _ => True

theorem countryregion_runs : Runs (hgicIwprivSetCountryregion env ifidx v) := by
  unfold hgicIwprivSetCountryregion
  split
  · exact runs_ok _
  · exact string_runs _

theorem atcmd_runs : Runs (hgicIwprivSetAtcmd env ifidx v) := by
  unfold hgicIwprivSetAtcmd
  split
  · exact string_runs _
  · exact runs_ok _

theorem chanList_runs : Runs (hgicIwprivSetChanList env ifidx v) := by
  unfold hgicIwprivSetChanList
  exact (nonempty_runs _).mpr fun _ => runs_ok _

theorem setting_runs (s : Setting) : Runs (s.row.2 env ifidx v) ↔ s.Ok env ifidx v := by
  cases s with
  | bssid => exact macOfSta_runs _
  | resetSta => exact macOfSta_runs _
  | disassocSta => exact mac_runs _
  | unpair => exact mac_runs _
  | wakeup => exact mac_runs _
  | roamingBssid => exact mac_runs _
  | rmeshMeshid => exact mac_runs _
  | joinGroup => exact macNumber_runs _
  | bssDisable => exact macNumber_runs _
  | pairedStas => exact pairedStas_runs
  | wkdataMask => exact wkdataMask_runs
  | hbdataMask => exact hbdataMask_runs
  | blenc => exact runs_map.trans blenc_runs
  | userEdca => exact userEdca_runs
  | ccaParam => exact ccaParam_runs
  | custDrvdata => exact custDrvdata_runs
  | rmeshDevice => exact rmeshDevice_runs
  | countryRegion => exact iff_of_true countryregion_runs trivial
  | atcmd => exact iff_of_true atcmd_runs trivial
  | ssid | keyMgmt | wpaPsk | bssidFilter | mode | mcastKey | sysdbg | rSsid | rPsk =>
    exact iff_of_true (string_runs _) trivial
  | heartbeatResp | wakeupData | custmgmt | mgmtframe | driverdata | freqinfo | txModgain =>
    exact iff_of_true (raw_runs _) trivial
  | chanList => exact iff_of_true chanList_runs trivial
  | freqRange | acs => exact iff_of_true ((nonempty_runs _).mpr fun _ => runs_ok _) trivial
  | _ => exact iff_of_true (runs_ok _) trivial

end

theorem set_request_covered (env : SetEnv) (ifidx : Nat) (s : Setting) (v : List UInt8) :
    Runs (hgicIwprivSetProc env true true ifidx (bytes s.row.1 ++ 61 :: v)) ↔ s.Ok env ifidx v := by
  unfold hgicIwprivSetProc
  rw [selectSet_row]
  exact setting_runs s

/-- Every byte is read, and `char` is signed; no response comes. -/
def plainEnv : SetEnv := ⟨⟨true, true⟩, ⟨true, none⟩, true, false, 0x02000000⟩

/-- `wkdata_mask=`, with an empty value. -/
theorem set_request_underflow : ¬ Runs (hgicIwprivSetProc plainEnv true true 1 (bytes "wkdata_mask=")) := by
  decide +kernel

end HgicFmac.Iwpriv
