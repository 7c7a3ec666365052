import HgicFmac.Lib.Mem
import HgicFmac.Lib.Text

/-!
# `libnetat_cli`: AT commands over broadcast datagrams

* `Recv`, `recvbuf`, `rxCmd`, `rxDest`, `rxSrc`, `rxData` : what `sock_recv` gives, and the fields of `struct
  wnb_netat_cmd` in the receive buffer;
* `netatScan`, `netatSend` : the requests; `netatRecvAct` : what the receive loop of the vendor library does with a
  datagram;
* `cliParseMac`, `cliInitSocket`, `cliDiscover`, `cliScan`, `cliRecvAt` : the functions of `libnetat_cli.c`;
* `main` : a run of the program, with the datagrams that it sends.

The global `libnetat` is passed on as `NetatMgr`. Its socket is left out: every function uses the one that
`cli_init_socket` opened.
-/

namespace HgicFmac.Netat
open Lib

def wnbNetatCmdScanReq : Nat := 1
def wnbNetatCmdScanResp : Nat := 2
def wnbNetatCmdAtReq : Nat := 3
def wnbNetatCmdAtResp : Nat := 4

def netatBuffSize : Nat := 1024

/-- `sizeof(struct wnb_netat_cmd)`: the command, two bytes of length, the addresses. -/
def cmdSize : Nat := 15

structure NetatMgr where
  dest : List UInt8
  cookie : List UInt8
  deriving DecidableEq, Repr

/-- `libnetat` before `main`. -/
def netatInit : NetatMgr := ⟨List.replicate 6 0, List.replicate 6 0⟩

/-- A call of `sock_recv`: a datagram, or a timeout or an error. -/
inductive Recv
  | datagram (d : List UInt8)
  | quiet
  deriving DecidableEq, Repr

/-! ## Received datagrams -/

/-- `ret` for a datagram: what is longer than the buffer is cut. -/
def recvLen (d : List UInt8) : Nat := min d.length netatBuffSize

/-- The buffer after `memset` and the receive call. -/
def recvbuf (d : List UInt8) : Mem := Mem.ofList (d.take netatBuffSize)

def rxCmd (d : List UInt8) : Nat := (recvbuf d 0).toNat
def rxDest (d : List UInt8) : List UInt8 := (recvbuf d).read 3 6
def rxSrc (d : List UInt8) : List UInt8 := (recvbuf d).read 9 6

/-- `cmd->data`, as far as it was received. -/
def rxData (d : List UInt8) : List UInt8 := (recvbuf d).read cmdSize (recvLen d - cmdSize)

/-- The test of both loops of the wrapper: long enough, and a scan response. -/
def isScanResp (d : List UInt8) : Bool := cmdSize ≤ recvLen d && rxCmd d = wnbNetatCmdScanResp

/-! ## The vendor library -/

/-- A datagram as it is sent. -/
def wnbNetatCmd (cmd len : Nat) (dest src data : List UInt8) : List UInt8 :=
  List.flatten [[UInt8.ofNat cmd], bytes16 .big len, dest, src, data]

def netatScan (s : NetatMgr) : List UInt8 := wnbNetatCmd wnbNetatCmdScanReq 0 (List.replicate 6 0xff) s.cookie []

/-- `netat_send`: the length is an `unsigned short` in network order. -/
def netatSend (s : NetatMgr) (atcmd : List UInt8) : List UInt8 :=
  wnbNetatCmd wnbNetatCmdAtReq (atcmd.length % 2 ^ 16) s.dest s.cookie atcmd

/-- What `netat_recv` does with a datagram: it takes the sender of a scan response for its device, takes the text of a
response, or ignores it. -/
inductive Action
  | select (src : List UInt8)
  | response (data : List UInt8)
  | ignore
  deriving DecidableEq, Repr

/-- The body of the loop of `netat_recv`. -/
def netatRecvAct (s : NetatMgr) (d : List UInt8) : Action :=
  if cmdSize ≤ recvLen d ∧ rxDest d = s.cookie then
    if rxCmd d = wnbNetatCmdScanResp then .select (rxSrc d)
    else if rxCmd d = wnbNetatCmdAtResp then .response (rxData d)
    else .ignore
  else .ignore

/-! ## The wrapper -/

def isBlank (b : UInt8) : Bool := b = 32 || 9 ≤ b && b ≤ 13

/-- `%02x` of `sscanf`: blanks are skipped, then at most two characters are taken, of which one may be a sign. A prefix
0x fills the field without a digit, which is no number. -/
def scanHex (s : List UInt8) : Option (UInt8 × List UInt8) :=
  match s.dropWhile isBlank with
  | [] => none
  | b :: s =>
    if b = 43 ∨ b = 45 then
      match s with
      | [] => none
      | c :: s => (digit c).map fun x => (if b = 45 then UInt8.ofNat (256 - x) else UInt8.ofNat x, s)
    else (digit b).bind fun x =>
      match s with
      | [] => some (UInt8.ofNat x, [])
      | c :: s =>
        if x = 0 ∧ lower c = 120 then none
        else match digit c with
          | some y => some (UInt8.ofNat (16 * x + y), s)
          | none => some (UInt8.ofNat x, c :: s)

/-- `n` more bytes, each behind a colon. -/
def scanMore : Nat → List UInt8 → Option (List UInt8)
  | 0, _ => some []
  | n + 1, s => match s with
    | 58 :: s => (scanHex s).bind fun r => (scanMore n r.2).map (r.1 :: ·)
    | _ => none

/-- `cli_parse_mac`: the six bytes, or an error. -/
def cliParseMac (s : List UInt8) : Option (List UInt8) :=
  (scanHex s).bind fun r => (scanMore 5 r.2).map (r.1 :: ·)

/-- What the system does in a run: the calls of `cli_init_socket` that succeed, the bytes of `random_bytes`, `malloc` in
`netat_send`, and the results of `sock_recv`. -/
structure Env where
  socket : Bool
  broadcast : Bool
  bindToDevice : Bool
  bind : Bool
  cookie : List UInt8
  cookie_len : cookie.length = 6
  malloc : Bool
  recvs : List Recv

/-- All calls of `cli_init_socket` succeed. -/
def Env.socketReady (env : Env) : Bool := env.socket && env.broadcast && env.bindToDevice && env.bind

/-- `cli_init_socket`: the destination is the broadcast address from here on. -/
def cliInitSocket (env : Env) (s : NetatMgr) : Option NetatMgr :=
  let s := { s with dest := List.replicate 6 0xff }
  if env.socketReady then some { s with cookie := env.cookie } else none

/-- The loop of `cli_discover`: the first scan response, and what is received after it. The sender becomes the
destination. -/
def cliDiscover : List Recv → Option (List UInt8 × List Recv)
  | [] => none
  | .quiet :: _ => none
  | .datagram d :: rs =>
    if isScanResp d then some (d, rs) else if recvLen d = 0 then none else cliDiscover rs

def scanLoop : List Recv → List (List UInt8) → List (List UInt8)
  | [], devices => devices
  | .quiet :: _, devices => devices
  | .datagram d :: rs, devices =>
    let devices := if isScanResp d && devices.length < 128 then devices ++ [rxSrc d] else devices
    if recvLen d = 0 then devices else scanLoop rs devices

/-- `cli_scan`: the devices that it prints. -/
def cliScan (rs : List Recv) : List (List UInt8) := scanLoop rs []

/-- The loop of `cli_recv_at`: fragments that do not fit are dropped. -/
def recvAtLoop (s : NetatMgr) (bufsize : Nat) : List Recv → List UInt8 → List UInt8
  | [], out => out
  | .quiet :: _, out => out
  | .datagram d :: rs, out =>
    let data := rxData d
    let out := if cmdSize ≤ recvLen d ∧ rxDest d = s.cookie ∧ rxCmd d = wnbNetatCmdAtResp ∧ 0 < data.length ∧
      out.length + data.length < bufsize - 1 then out ++ data else out
    if recvLen d = 0 then out else recvAtLoop s bufsize rs out

def cliRecvAt (s : NetatMgr) (bufsize : Nat) (rs : List Recv) : List UInt8 := recvAtLoop s bufsize rs []

/-- `MACSTR` and a line feed. -/
def macLine (mac : List UInt8) : List UInt8 := List.intercalate [58] (mac.map hex2) ++ [10]

/-- A run: the exit code, the datagrams that were sent, and what was printed to `stdout`. -/
structure Run where
  exit : Nat
  sent : List (List UInt8)
  out : List UInt8
  deriving DecidableEq, Repr

/-- From the socket on, with `argv[2]`. -/
def command (env : Env) (s : NetatMgr) (atcmd : List UInt8) : Run :=
  if atcmd = bytes "scan" then
    let devices := cliScan env.recvs
    ⟨if devices = [] then 1 else 0, [netatScan s], devices.flatMap macLine⟩
  else
    let discovered := if (s.dest.headD 0).toNat % 2 = 1 then
        (cliDiscover env.recvs).map fun r => ({ s with dest := rxSrc r.1 }, r.2)
      else some (s, env.recvs)
    let scans := if (s.dest.headD 0).toNat % 2 = 1 then [netatScan s] else []
    match discovered with
    | none => ⟨1, scans, []⟩
    | some (s, rs) =>
      let sent := if env.malloc then scans ++ [netatSend s atcmd] else scans
      let response := cliRecvAt s netatBuffSize rs
      if response = [] then ⟨1, sent, []⟩ else ⟨0, sent, cstr response⟩

/-- `main`; with the interface alone it is the interactive program of the vendor. -/
def main (env : Env) (argv : List (List UInt8)) : Option Run :=
  match argv with
  | [] | [_] => some ⟨1, [], []⟩
  | [_, _] => none
  | _ :: _ :: atcmd :: macs =>
    let s := match macs with
      | [] => some netatInit
      | mac :: _ => (cliParseMac mac).map fun dest => { netatInit with dest := dest }
    some (match s.bind (cliInitSocket env) with
      | none => ⟨1, [], []⟩
      | some s => command env s atcmd)

end HgicFmac.Netat

