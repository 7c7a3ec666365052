import HgicFmac.Netat.Model

/-!
# Whom `libnetat_cli` talks to

* `main_sent` : what a run with a device address sends. `cli_init_socket` overwrites the address with the broadcast
  one, so the scan request goes first, and the AT request to whoever answers it;
* `ToDevice`, `main_toDevice_iff` : the contract for such a run holds only when nothing is sent;
* `received`, `responses` : the datagrams up to the end of a receive loop, and the scan responses among them;
  `cliDiscover_eq`, `cliScan_eq` : what the two loops make of them;
* `cli_accepts_iff` : when the loops take exactly what the vendor library would take.
-/

namespace HgicFmac.Netat
open Lib

/-! ## A run with the address of a device -/

/-- The command and the destination of a datagram that was sent. -/
def sentCmd (d : List UInt8) : Nat := (d.headD 0).toNat
def sentDest (d : List UInt8) : List UInt8 := (d.drop 3).take 6

/-- No scan request is sent, and an AT request goes to `mac`. -/
structure ToDevice (mac : List UInt8) (r : Run) : Prop where
  noScan : ∀ d ∈ r.sent, sentCmd d ≠ wnbNetatCmdScanReq
  dest : ∀ d ∈ r.sent, sentCmd d = wnbNetatCmdAtReq → sentDest d = mac

/-- What is sent once the socket is set up, whatever address was given: the scan request, and to the first device that
answers the AT request. -/
def sentAfterScan (env : Env) (atcmd : List UInt8) : List (List UInt8) :=
  netatScan ⟨List.replicate 6 0xff, env.cookie⟩ :: match cliDiscover env.recvs with
    | none => []
    | some (d, _) => if env.malloc then [netatSend ⟨rxSrc d, env.cookie⟩ atcmd] else []

theorem command_sent (env : Env) {atcmd : List UInt8} (hat : atcmd ≠ bytes "scan") :
    (command env ⟨List.replicate 6 0xff, env.cookie⟩ atcmd).sent = sentAfterScan env atcmd := by
  have hodd : ((List.replicate 6 (0xff : UInt8)).headD 0).toNat % 2 = 1 := by decide
  unfold command sentAfterScan
  rw [if_neg hat]
  simp only [if_pos hodd]
  cases cliDiscover env.recvs with
  | none => rfl
  | some r =>
    simp only [Option.map_some]
    split
    · cases env.malloc <;> rfl
    · cases env.malloc <;> rfl

section Device
variable (env : Env) (prog ifname : List UInt8) {atcmd macArg mac : List UInt8} (rest : List (List UInt8))
  (hat : atcmd ≠ bytes "scan") (hmac : cliParseMac macArg = some mac)
include hat hmac

theorem main_sent : ∃ r, main env (prog :: ifname :: atcmd :: macArg :: rest) = some r ∧
    r.sent = if env.socketReady then sentAfterScan env atcmd else [] := by
  unfold main
  simp only [hmac, Option.map_some, Option.bind_some, cliInitSocket]
  cases env.socketReady with
  | false => exact ⟨_, rfl, rfl⟩
  | true => exact ⟨_, rfl, command_sent env hat⟩

/-- **A run for one device**: it keeps to the contract exactly when the socket cannot be set up and so nothing is
sent. -/
theorem main_toDevice_iff : ∃ r, main env (prog :: ifname :: atcmd :: macArg :: rest) = some r ∧
    (ToDevice mac r ↔ env.socketReady = false) := by
  obtain ⟨r, hr, hsent⟩ := main_sent env prog ifname rest hat hmac
  refine ⟨r, hr, ?_⟩
  cases hready : env.socketReady with
  | false =>
    rw [hready, if_neg (by decide)] at hsent
    refine iff_of_true ?_ rfl
    constructor
    · intro d hd
      rw [hsent] at hd
      cases hd
    · intro d hd
      rw [hsent] at hd
      cases hd
  | true =>
    rw [hready, if_pos rfl] at hsent
    refine iff_of_false ?_ (by decide)
    intro hto
    apply hto.noScan (netatScan ⟨List.replicate 6 0xff, env.cookie⟩)
    · rw [hsent]
      exact List.mem_cons_self
    · rfl

end Device

/-- A system on which everything succeeds, with the cookie 1 2 3 4 5 6. -/
def calmEnv (recvs : List Recv) : Env := ⟨true, true, true, true, [1, 2, 3, 4, 5, 6], rfl, true, recvs⟩

def scanResp (dest src : List UInt8) : Recv := .datagram (wnbNetatCmd wnbNetatCmdScanResp 0 dest src [])

def deviceArgs : List (List UInt8) :=
  [bytes "libnetat_cli", bytes "wlan0", bytes "AT+VERSION", bytes "02:0a:00:00:00:01"]

theorem parse_deviceArgs : cliParseMac (bytes "02:0a:00:00:00:01") = some [2, 10, 0, 0, 0, 1] := by decide

theorem deviceArgs_toDevice_iff : ∃ r, main { calmEnv [] with socket := false } deviceArgs = some r ∧
    ToDevice [2, 10, 0, 0, 0, 1] r := by
  obtain ⟨r, hr, hiff⟩ := main_toDevice_iff { calmEnv [] with socket := false } (bytes "libnetat_cli") (bytes "wlan0")
    [] (by decide : bytes "AT+VERSION" ≠ bytes "scan") parse_deviceArgs
  exact ⟨r, hr, hiff.mpr rfl⟩

/-- Another device answers the scan, and gets the AT request. -/
theorem deviceArgs_other : ∃ r,
    main (calmEnv [scanResp [1, 2, 3, 4, 5, 6] [2, 10, 0, 0, 0, 9]]) deviceArgs = some r ∧
      r.sent.map sentCmd = [wnbNetatCmdScanReq, wnbNetatCmdAtReq] ∧
      (r.sent.map sentDest)[1]? = some [2, 10, 0, 0, 0, 9] ∧ ¬ ToDevice [2, 10, 0, 0, 0, 1] r := by
  refine ⟨_, rfl, by decide, by decide, ?_⟩
  intro hto
  exact absurd rfl (hto.noScan _ List.mem_cons_self)

/-! ## Which datagrams the loops take -/

/-- The datagrams that a receive loop gets before it ends. -/
def received : List Recv → List (List UInt8)
  | [] => []
  | .quiet :: _ => []
  | .datagram d :: rs => if recvLen d = 0 then [] else d :: received rs

/-- The scan responses among them, whoever they are addressed to. -/
def responses (rs : List Recv) : List (List UInt8) := (received rs).filter isScanResp

/-- `netat_recv` would take the sender of `d` for its device. -/
def Accepted (s : NetatMgr) (d : List UInt8) : Prop := netatRecvAct s d = .select (rxSrc d)

instance (s : NetatMgr) (d : List UInt8) : Decidable (Accepted s d) := inferInstanceAs (Decidable (_ = _))

theorem accepted_iff (s : NetatMgr) (d : List UInt8) : Accepted s d ↔ isScanResp d ∧ rxDest d = s.cookie := by
  unfold Accepted netatRecvAct isScanResp
  by_cases hlen : cmdSize ≤ recvLen d
  · by_cases hdest : rxDest d = s.cookie
    · by_cases hcmd : rxCmd d = wnbNetatCmdScanResp
      · simp [hlen, hdest, hcmd]
      · by_cases hat : rxCmd d = wnbNetatCmdAtResp
        · simp [hlen, hdest, hat, wnbNetatCmdScanResp, wnbNetatCmdAtResp]
        · simp [hlen, hdest, hcmd, hat]
    · simp [hdest]
  · simp [hlen]

theorem recvLen_of_scanResp {d : List UInt8} (h : isScanResp d) : recvLen d ≠ 0 := by
  obtain ⟨hlen, -⟩ := (Bool.and_eq_true _ _).mp h
  have hlen := of_decide_eq_true hlen
  unfold cmdSize at hlen
  omega

theorem filter_received_cons {p : List UInt8 → Bool} (hp : ∀ d, p d → recvLen d ≠ 0) (d : List UInt8) (rs : List Recv) :
    (received (.datagram d :: rs)).filter p =
      if p d then d :: (received rs).filter p else if recvLen d = 0 then [] else (received rs).filter p := by
  rw [received]
  by_cases hd : p d
  · rw [if_neg (hp d hd), if_pos hd, List.filter_cons_of_pos hd]
  · rw [if_neg hd]
    split
    · rfl
    · rw [List.filter_cons_of_neg hd]

theorem responses_cons (d : List UInt8) (rs : List Recv) :
    responses (.datagram d :: rs) =
      if isScanResp d then d :: responses rs else if recvLen d = 0 then [] else responses rs :=
  filter_received_cons (fun _ => recvLen_of_scanResp) d rs

theorem cliDiscover_eq (rs : List Recv) : (cliDiscover rs).map Prod.fst = (responses rs).head? := by
  induction rs with
  | nil => rfl
  | cons r rs ih =>
    cases r with
    | quiet => rfl
    | datagram d =>
      rw [cliDiscover, responses_cons]
      split
      · rfl
      · split
        · rfl
        · exact ih

theorem scanLoop_eq (rs : List Recv) (devices : List (List UInt8)) :
    scanLoop rs devices = devices ++ ((responses rs).take (128 - devices.length)).map rxSrc := by
  induction rs generalizing devices with
  | nil => simp [scanLoop, responses, received]
  | cons r rs ih =>
    cases r with
    | quiet => simp [scanLoop, responses, received]
    | datagram d =>
      rw [scanLoop, responses_cons]
      by_cases hd : isScanResp d
      · have h0 := recvLen_of_scanResp hd
        by_cases hlt : devices.length < 128
        · have hroom : 128 - devices.length = 128 - (devices ++ [rxSrc d]).length + 1 := by
            rw [List.length_append, List.length_singleton]
            omega
          simp only [hd, hlt, decide_true, Bool.and_self, if_true, if_neg h0]
          rw [ih, hroom, List.take_succ_cons, List.map_cons, List.append_assoc, List.singleton_append]
        · simp only [hd, hlt, decide_false, Bool.and_false, if_true, if_neg h0, Bool.false_eq_true, if_false]
          rw [ih, show 128 - devices.length = 0 by omega, List.take_zero, List.take_zero]
      · simp only [hd, Bool.false_and, Bool.false_eq_true, if_false]
        split
        · simp
        · rw [ih]

theorem cliScan_eq (rs : List Recv) : cliScan rs = ((responses rs).take 128).map rxSrc := by
  rw [cliScan, scanLoop_eq]
  rfl

/-- A device is discovered only by a response that the vendor library would take. -/
def DiscoverOk (s : NetatMgr) (rs : List Recv) : Prop := ∀ d rest, cliDiscover rs = some (d, rest) → Accepted s d

/-- The devices whose responses the vendor library would take are printed, each once, and no others. -/
def ScanOk (s : NetatMgr) (rs : List Recv) : Prop :=
  (cliScan rs).Nodup ∧ ∀ mac, mac ∈ cliScan rs ↔ ∃ d ∈ received rs, Accepted s d ∧ rxSrc d = mac

theorem discoverOk_iff (s : NetatMgr) (rs : List Recv) :
    DiscoverOk s rs ↔ ∀ d, (responses rs).head? = some d → rxDest d = s.cookie := by
  have hresp : ∀ d, (responses rs).head? = some d → isScanResp d := fun d hd =>
    (List.mem_filter.mp (List.mem_of_mem_head? hd)).2
  constructor
  · intro hok d hd
    have hfst := cliDiscover_eq rs
    rw [hd] at hfst
    obtain ⟨⟨x, rest⟩, hx, rfl⟩ := Option.map_eq_some_iff.mp hfst
    exact ((accepted_iff s x).mp (hok x rest hx)).2
  · intro hall d rest hd
    have hhead : (responses rs).head? = some d := by
      rw [← cliDiscover_eq, hd]
      rfl
    exact (accepted_iff s d).mpr ⟨hresp d hhead, hall d hhead⟩

theorem exists_accepted_iff (s : NetatMgr) (rs : List Recv) (mac : List UInt8) :
    (∃ d ∈ received rs, Accepted s d ∧ rxSrc d = mac) ↔
      ∃ d ∈ responses rs, rxDest d = s.cookie ∧ rxSrc d = mac := by
  constructor
  · rintro ⟨d, hd, hacc, hmac⟩
    obtain ⟨hresp, hdest⟩ := (accepted_iff s d).mp hacc
    exact ⟨d, List.mem_filter.mpr ⟨hd, hresp⟩, hdest, hmac⟩
  · rintro ⟨d, hd, hdest, hmac⟩
    obtain ⟨hd, hresp⟩ := List.mem_filter.mp hd
    exact ⟨d, hd, (accepted_iff s d).mpr ⟨hresp, hdest⟩, hmac⟩

theorem scanOk_iff (s : NetatMgr) (rs : List Recv) :
    ScanOk s rs ↔ (((responses rs).take 128).map rxSrc).Nodup ∧
      (∀ d ∈ (responses rs).take 128, ∃ a ∈ responses rs, rxDest a = s.cookie ∧ rxSrc a = rxSrc d) ∧
      ∀ a ∈ (responses rs).drop 128, rxDest a = s.cookie → ∃ d ∈ (responses rs).take 128, rxSrc d = rxSrc a := by
  unfold ScanOk
  simp only [cliScan_eq, exists_accepted_iff, List.mem_map]
  refine and_congr_right fun _ => ⟨?_, ?_⟩
  · intro hall
    constructor
    · intro d hd
      exact (hall (rxSrc d)).mp ⟨d, hd, rfl⟩
    · intro a ha hdest
      exact (hall (rxSrc a)).mpr ⟨a, List.mem_of_mem_drop ha, hdest, rfl⟩
  · rintro ⟨hfirst, hlater⟩ mac
    constructor
    · rintro ⟨d, hd, rfl⟩
      exact hfirst d hd
    · rintro ⟨a, ha, hdest, rfl⟩
      rw [← List.take_append_drop 128 (responses rs), List.mem_append] at ha
      obtain ha | ha := ha
      · exact ⟨a, ha, rfl⟩
      · exact hlater a ha hdest

/-- **The two filters**: `cli_discover` agrees with the vendor library exactly when the first scan response is
addressed to the cookie; `cli_scan` exactly when among the first 128 no sender answers twice and every sender has
answered to the cookie, and what comes later to the cookie is from one of them. -/
theorem cli_accepts_iff (s : NetatMgr) (rs : List Recv) :
    (DiscoverOk s rs ↔ ∀ d, (responses rs).head? = some d → rxDest d = s.cookie) ∧
    (ScanOk s rs ↔ (((responses rs).take 128).map rxSrc).Nodup ∧
      (∀ d ∈ (responses rs).take 128, ∃ a ∈ responses rs, rxDest a = s.cookie ∧ rxSrc a = rxSrc d) ∧
      ∀ a ∈ (responses rs).drop 128, rxDest a = s.cookie → ∃ d ∈ (responses rs).take 128, rxSrc d = rxSrc a) :=
  ⟨discoverOk_iff s rs, scanOk_iff s rs⟩

/-- A response to another client is taken, and a device that answers twice is printed twice. -/
theorem cli_accepts_fails :
    ¬ DiscoverOk ⟨List.replicate 6 0xff, [1, 2, 3, 4, 5, 6]⟩ [scanResp [9, 9, 9, 9, 9, 9] [2, 10, 0, 0, 0, 9]] ∧
    ¬ ScanOk ⟨List.replicate 6 0xff, [1, 2, 3, 4, 5, 6]⟩ [scanResp [1, 2, 3, 4, 5, 6] [2, 10, 0, 0, 0, 1],
      scanResp [1, 2, 3, 4, 5, 6] [2, 10, 0, 0, 0, 1]] := by
  constructor
  · intro hok
    exact absurd (hok _ [] rfl) (by decide)
  · intro hok
    exact absurd hok.1 (by decide)

end HgicFmac.Netat
