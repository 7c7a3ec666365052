import HgicFmac.Lib.Loop
import HgicFmac.Sdio.Tx

/-!
# `hgic_sdio_interrupt`

The interrupt handler of the SDIO driver reads the status and the length from registers of the card, the data into
`rxbuf`, and hands them to `bus.rx_packet`, as long as the card has more.

* `Card` : what the card and the other contexts do at each access; `SdioDev` : the fields of the driver;
* `hgicSdioReadb`, `hgicSdioDataLen`, `hgicSdioIntStatus` : the registers, with the repetitions;
* `RxLoop`, `interruptPass` : the loop of the handler, with the accesses as history;
* `dataLen_ge` : a length is never below 8; `interruptPass_cases` : all that one pass can do;
* `interrupt_hands_on` : what is read goes to `rx_packet`, once and in order; `interrupt_passes`, `interrupt_halts`,
  `interrupt_ends` : how often the handler looks.
-/

namespace HgicFmac.Sdio
open Lib

abbrev Byte := BitVec 8

/-- `sdio_readb` of a function and an address at access `n`, if it succeeds, and so on; the two flags change between the
accesses. -/
structure Card where
  readb : Nat → Nat → Nat → Option Byte
  writeb : Nat → Bool
  fromio : Nat → Int
  rxPacket : Nat → Int
  inboot : Nat → Bool
  busypd : Nat → Bool

/-- `HGIC_WLAN_4002` or not, `rx_retry`, `max_pkt_len` and the address of `rxbuf`. -/
structure SdioDev where
  is4002 : Bool
  rxRetry : Nat
  maxPktLen : BitVec 32
  rxbuf : Nat

/-- The data that is read and handed on, with the results, and what is done about errors. -/
inductive RxEv
  | fromio (addr : Nat) (len : BitVec 32) (ret : Int)
  | packet (addr : Nat) (len : BitVec 32) (ret : Int)
  | abort | reinit | complete
  deriving DecidableEq, Repr

/-- The number of accesses so far, and what they were. -/
structure Rx where
  clock : Nat
  log : List RxEv
  deriving DecidableEq, Repr

def Rx.add (s : Rx) (ev : RxEv) : Rx := ⟨s.clock + 1, s.log ++ [ev]⟩

def sdioTransCountAddr : Nat := 0x1C
def sdioInitStatusAddr : Nat := 0x04
def sdioInitStatusAddr2 : Nat := 0x48
def sdioTransCountAddr2 : Nat := 0x49
def sdioBlockSize : BitVec 32 := 64

/-! ## Registers -/

section Registers
variable (c : Card)

/-- The value and whether there was an error; a read that fails gives `0xff`. -/
def sdioReadb (fn addr : Nat) (s : Rx) : (Byte × Bool) × Rx :=
  ((match c.readb s.clock fn addr with
    | some b => (b, false)
    | none => (0xff, true)), { s with clock := s.clock + 1 })

def readRetry (fn addr : Nat) : Nat → Rx → (Byte × Bool) × Rx
  | 0, s => sdioReadb c fn addr s
  | retry + 1, s =>
    let r := sdioReadb c fn addr s
    if r.1.2 then readRetry fn addr retry r.2 else r

def hgicSdioReadb (fn addr : Nat) (s : Rx) : (Byte × Bool) × Rx := readRetry c fn addr 2 s

def writeRetry : Nat → Rx → Rx
  | 0, s => { s with clock := s.clock + 1 }
  | retry + 1, s =>
    let t := { s with clock := s.clock + 1 }
    if c.writeb s.clock then t else writeRetry retry t

/-- The result of the write is not looked at. -/
def hgicSdioAbort (s : Rx) : Rx := (writeRetry c 4 s).add .abort

def hgicSdioReadCccr (s : Rx) : (Byte × Bool) × Rx := hgicSdioReadb c 0 5 s

def hgicSdioGetDatalen (addr : Nat) (s : Rx) : BitVec 32 × Rx :=
  let low := hgicSdioReadb c 1 addr s
  if low.1.2 then (0xffffffff, low.2)
  else
    let high := hgicSdioReadb c 1 (addr + 1) low.2
    if high.1.2 then (0xffffffff, high.2) else (low.1.1.setWidth 32 ||| (high.1.1.setWidth 32 <<< 8), high.2)

/-- The length in the second register; the error of the read is not looked at. -/
def dataLen2 (d : SdioDev) (s : Rx) : BitVec 32 × Rx :=
  if c.inboot s.clock then (0, s)
  else if d.is4002 then hgicSdioGetDatalen c sdioTransCountAddr2 s
  else
    let r := sdioReadb c 1 sdioTransCountAddr2 s
    (r.1.1.setWidth 32 * sdioBlockSize, r.2)

/-- The length in the first register, where the second one has none. -/
def announcedLen (d : SdioDev) (s : Rx) : BitVec 32 × Rx :=
  let second := dataLen2 c d s
  if second.1 = 0 ∨ second.1 = 0xffffffff then hgicSdioGetDatalen c sdioTransCountAddr second.2 else second

/-- A few bytes are a few blocks. -/
def inBlocks (len : BitVec 32) : BitVec 32 := if 0 < len ∧ len < 8 then len * sdioBlockSize else len

def hgicSdioDataLen (d : SdioDev) (s : Rx) : BitVec 32 × Rx :=
  let r := announcedLen c d s
  (inBlocks (if r.1 = 0 then if c.inboot r.2.clock then 16 else 0xffffffff else r.1), r.2)

/-- The first status register, and the second one where the first has nothing. -/
def readIntStatus (s : Rx) : Byte × Rx :=
  let first := hgicSdioReadb c 1 sdioInitStatusAddr s
  if first.1.2 = false ∧ first.1.1 = 0 ∧ c.inboot first.2.clock = false then
    ((hgicSdioReadb c 1 sdioInitStatusAddr2 first.2).1.1, (hgicSdioReadb c 1 sdioInitStatusAddr2 first.2).2)
  else (first.1.1, first.2)

def hgicSdioIntStatus (s : Rx) : Byte × Rx :=
  let pending := hgicSdioReadCccr c s
  if pending.1.2 = false ∧ pending.1.1 &&& 2 ≠ 0 then
    let r := readIntStatus c pending.2
    if r.1 = 0 then (0, hgicSdioAbort c r.2) else r
  else (0, pending.2)

end Registers

/-! ## The handler -/

/-- `PTR_ALIGN(sdiodev->rxbuf, SDIO_DMA_ALIGN)`. -/
def SdioDev.buffer (d : SdioDev) : Nat := (d.rxbuf + (sdioDmaAlign - 1)) / sdioDmaAlign * sdioDmaAlign

/-- The state at the head of the loop; `looks` counts the passes that are over, and `ready` those with data. -/
structure RxLoop where
  rx : Rx
  readMore : Nat
  looks : Nat
  ready : Nat

section Handler
variable (c : Card) (d : SdioDev)

/-- The branch of DATA_READY. The status, unless the handler returns here. -/
def receive (s : Rx) : Option Int × Rx :=
  let len := hgicSdioDataLen c d s
  if len.1 = 0xffffffff then (none, (hgicSdioAbort c len.2).add .reinit)
  else if 0 < len.1 then
    if d.maxPktLen < len.1 then (none, hgicSdioAbort c len.2)
    else
      let read := len.2.add (.fromio d.buffer len.1 (c.fromio len.2.clock))
      if c.fromio len.2.clock ≠ 0 then (none, read.add .reinit)
      else
        let ret := c.rxPacket read.clock
        let handed := read.add (.packet d.buffer len.1 ret)
        (some ret, if ret ≠ 0 then hgicSdioAbort c handed else handed)
  else (some 0, hgicSdioAbort c len.2)

/-- The end of a pass: BUSY, and the condition of the loop. -/
def passEnd (intStatus : Byte) (ret : Int) (t : RxLoop) : Pass RxLoop :=
  let rx := if intStatus &&& 8 ≠ 0 ∧ c.busypd t.rx.clock = true then t.rx.add .complete else t.rx
  if ret = 0 ∧ 0 < t.readMore then .again { t with rx := rx, readMore := t.readMore - 1, looks := t.looks + 1 }
  else .leave { t with rx := rx, looks := t.looks + 1 }

def interruptPass (t : RxLoop) : Pass RxLoop :=
  let status := hgicSdioIntStatus c t.rx
  if status.1 &&& 1 ≠ 0 then
    match receive c d status.2 with
    | (none, rx) => .leave { t with rx := rx, looks := t.looks + 1, ready := t.ready + 1 }
    | (some ret, rx) => passEnd c status.1 ret { t with rx := rx, readMore := d.rxRetry, ready := t.ready + 1 }
  else passEnd c status.1 0 { t with rx := status.2 }

/-- `hgic_sdio_interrupt` that is not stopped. -/
def hgicSdioInterrupt (s : Rx) : RxLoop := ⟨s, d.rxRetry, 0, 0⟩

end Handler

/-! ## Lengths -/

theorem inBlocks_ge {len : BitVec 32} (hne : len ≠ 0) : 8 ≤ inBlocks len := by
  have hpos : 0 < len := by
    rw [BitVec.lt_def]
    exact Nat.pos_of_ne_zero fun h0 => hne (BitVec.eq_of_toNat_eq h0)
  unfold inBlocks sdioBlockSize
  split
  · next hsmall =>
    have hall : ∀ k < 8, k ≠ 0 → (8 : BitVec 32) ≤ BitVec.ofNat 32 k * 64 := by decide
    have hlt : len.toNat < 8 := BitVec.lt_def.1 hsmall.2
    have h := hall len.toNat hlt (fun h0 => hne (BitVec.eq_of_toNat_eq h0))
    rwa [BitVec.ofNat_toNat, BitVec.setWidth_eq] at h
  · next hno => exact BitVec.not_lt.1 fun hlt => hno ⟨hpos, hlt⟩

theorem dataLen_ge (c : Card) (d : SdioDev) (s : Rx) : 8 ≤ (hgicSdioDataLen c d s).1 := by
  apply inBlocks_ge
  split
  · split <;> decide
  · assumption

/-! ## The log -/

theorem log_readRetry (c : Card) (fn addr retry : Nat) (s : Rx) : (readRetry c fn addr retry s).2.log = s.log := by
  induction retry generalizing s with
  | zero => rfl
  | succ retry ih =>
    rw [readRetry]
    split
    · exact ih _
    · rfl

theorem log_writeRetry (c : Card) (retry : Nat) (s : Rx) : (writeRetry c retry s).log = s.log := by
  induction retry generalizing s with
  | zero => rfl
  | succ retry ih =>
    rw [writeRetry]
    split
    · rfl
    · exact ih _

theorem log_abort (c : Card) (s : Rx) : (hgicSdioAbort c s).log = s.log ++ [.abort] := by
  rw [hgicSdioAbort, Rx.add, log_writeRetry]

theorem log_readb (c : Card) (fn addr : Nat) (s : Rx) : (hgicSdioReadb c fn addr s).2.log = s.log :=
  log_readRetry c fn addr 2 s

theorem log_getDatalen (c : Card) (addr : Nat) (s : Rx) : (hgicSdioGetDatalen c addr s).2.log = s.log := by
  unfold hgicSdioGetDatalen
  dsimp only
  split
  · exact log_readb c 1 addr s
  · split <;> exact (log_readb c 1 (addr + 1) _).trans (log_readb c 1 addr s)

theorem log_dataLen (c : Card) (d : SdioDev) (s : Rx) : (hgicSdioDataLen c d s).2.log = s.log := by
  have hsecond : (dataLen2 c d s).2.log = s.log := by
    unfold dataLen2
    split
    · rfl
    · split
      · exact log_getDatalen c _ s
      · rfl
  change (announcedLen c d s).2.log = s.log
  unfold announcedLen
  dsimp only
  split
  · exact (log_getDatalen c _ _).trans hsecond
  · exact hsecond

theorem log_intStatus (c : Card) (s : Rx) :
    (hgicSdioIntStatus c s).2.log = s.log ∨ (hgicSdioIntStatus c s).2.log = s.log ++ [.abort] := by
  have hcccr : (hgicSdioReadCccr c s).2.log = s.log := log_readb c 0 5 s
  have hread : (readIntStatus c (hgicSdioReadCccr c s).2).2.log = s.log := by
    unfold readIntStatus
    dsimp only
    split
    · exact (log_readb c 1 _ _).trans ((log_readb c 1 _ _).trans hcccr)
    · exact (log_readb c 1 _ _).trans hcccr
  unfold hgicSdioIntStatus
  dsimp only
  split
  · split
    · exact .inr (by rw [log_abort, hread])
    · exact .inl hread
  · exact .inl hcccr

/-! ## What is handed on -/

/-- The reads of data in a log, with address, length and result. -/
def reads (log : List RxEv) : List (Nat × BitVec 32 × Int) := log.filterMap fun
  | .fromio addr len ret => some (addr, len, ret)
  | _ => none

/-- The calls of `rx_packet` in a log. -/
def packets (log : List RxEv) : List (Nat × BitVec 32 × Int) := log.filterMap fun
  | .packet addr len ret => some (addr, len, ret)
  | _ => none

theorem reads_append (xs ys : List RxEv) : reads (xs ++ ys) = reads xs ++ reads ys := List.filterMap_append

theorem packets_append (xs ys : List RxEv) : packets (xs ++ ys) = packets xs ++ packets ys := List.filterMap_append

/-- A length that is read and handed on. -/
structure SdioDev.Fits (d : SdioDev) (len : BitVec 32) : Prop where
  lo : 8 ≤ len
  hi : len ≤ d.maxPktLen

/-- Data of these lengths, read and handed on without an error. -/
def SdioDev.done (d : SdioDev) (lens : List (BitVec 32)) : List (Nat × BitVec 32 × Int) := lens.map (d.buffer, ·, 0)

/-- The end of the reads and of the packets: without an error, with data that could not be read and was not handed on,
or with data that was not taken. -/
inductive LastRead (d : SdioDev) : List (Nat × BitVec 32 × Int) → List (Nat × BitVec 32 × Int) → Prop
  | good : LastRead d [] []
  | failed {len : BitVec 32} {err : Int} : d.Fits len → err ≠ 0 → LastRead d [(d.buffer, len, err)] []
  | refused {len : BitVec 32} {ret : Int} : d.Fits len → ret ≠ 0 →
    LastRead d [(d.buffer, len, 0)] [(d.buffer, len, ret)]

section HandedOn
variable (c : Card) (d : SdioDev)

theorem receive_cases (s : Rx) : ∃ log, (receive c d s).2.log = s.log ++ log ∧
    ((receive c d s).1 = some 0 ∧ (∃ len, d.Fits len ∧ reads log = d.done [len] ∧ packets log = d.done [len]) ∨
      (receive c d s).1 ≠ some 0 ∧ LastRead d (reads log) (packets log)) := by
  have hlo := dataLen_ge c d s
  have hlog := log_dataLen c d s
  have hpos : 0 < (hgicSdioDataLen c d s).1 := BitVec.lt_def.2 (Nat.lt_of_lt_of_le (by decide) (BitVec.le_def.1 hlo))
  rw [receive]
  generalize hgicSdioDataLen c d s = len at *
  dsimp only
  split
  · refine ⟨[.abort, .reinit], ?_, .inr ⟨nofun, .good⟩⟩
    rw [Rx.add, log_abort, hlog, List.append_assoc]
    rfl
  · split
    · exact ⟨[.abort], by rw [log_abort, hlog], .inr ⟨nofun, .good⟩⟩
    · next hhi =>
      have hfits : d.Fits len.1 := ⟨hlo, BitVec.not_lt.1 hhi⟩
      split
      · next herr =>
        refine ⟨[.fromio d.buffer len.1 (c.fromio len.2.clock), .reinit], ?_, .inr ⟨nofun, .failed hfits herr⟩⟩
        rw [Rx.add, Rx.add, hlog, List.append_assoc]
        rfl
      · next h0 =>
        have h0' : c.fromio len.2.clock = 0 := not_not.1 h0
        rw [h0']
        generalize c.rxPacket _ = ret
        split
        · next hret =>
          refine ⟨[.fromio d.buffer len.1 0, .packet d.buffer len.1 ret, .abort], ?_, .inr ⟨?_, .refused hfits hret⟩⟩
          · rw [log_abort, Rx.add, Rx.add, hlog, List.append_assoc, List.append_assoc]
            rfl
          · exact fun heq => hret (Option.some.inj heq)
        · next hret =>
          obtain rfl : ret = 0 := not_not.1 hret
          refine ⟨[.fromio d.buffer len.1 0, .packet d.buffer len.1 0], ?_, .inl ⟨rfl, len.1, hfits, rfl, rfl⟩⟩
          rw [Rx.add, Rx.add, hlog, List.append_assoc]
          rfl

/-- What one pass, or several, add to the log. -/
def Adds (s t : Rx) (lens : List (BitVec 32)) (read handed : List (Nat × BitVec 32 × Int)) : Prop :=
  ∃ log, t.log = s.log ++ log ∧ (∀ len ∈ lens, d.Fits len) ∧ reads log = d.done lens ++ read ∧
    packets log = d.done lens ++ handed

variable {d} in
theorem Adds.trans {s t u : Rx} {lens lens' : List (BitVec 32)} {read handed : List (Nat × BitVec 32 × Int)}
    (h1 : Adds d s t lens [] []) (h2 : Adds d t u lens' read handed) : Adds d s u (lens ++ lens') read handed := by
  obtain ⟨log1, hl1, hf1, hr1, hp1⟩ := h1
  obtain ⟨log2, hl2, hf2, hr2, hp2⟩ := h2
  refine ⟨log1 ++ log2, by rw [hl2, hl1, List.append_assoc], ?_, ?_, ?_⟩
  · intro len hlen
    exact (List.mem_append.1 hlen).elim (hf1 len) (hf2 len)
  · rw [reads_append, hr1, hr2, List.append_nil, ← List.append_assoc, SdioDev.done, SdioDev.done, SdioDev.done,
      List.map_append]
  · rw [packets_append, hp1, hp2, List.append_nil, ← List.append_assoc, SdioDev.done, SdioDev.done, SdioDev.done,
      List.map_append]

variable {d} in
theorem Adds.then_quiet {s t u : Rx} {lens : List (BitVec 32)} {read handed : List (Nat × BitVec 32 × Int)}
    (h1 : Adds d s t lens read handed) (h2 : Adds d t u [] [] []) : Adds d s u lens read handed := by
  obtain ⟨log1, hl1, hf1, hr1, hp1⟩ := h1
  obtain ⟨log2, hl2, -, hr2, hp2⟩ := h2
  refine ⟨log1 ++ log2, by rw [hl2, hl1, List.append_assoc], hf1, ?_, ?_⟩
  · rw [reads_append, hr2, hr1]
    exact List.append_nil _
  · rw [packets_append, hp2, hp1]
    exact List.append_nil _

variable {d} in
theorem Adds.same {s t : Rx} (hlog : t.log = s.log) : Adds d s t [] [] [] :=
  ⟨[], by rw [hlog, List.append_nil], nofun, rfl, rfl⟩

/-- The end of a pass adds nothing about data, and the loop goes on only without an error. -/
theorem passEnd_cases (intStatus : Byte) (ret : Int) (t : RxLoop) :
    Adds d t.rx (passEnd c intStatus ret t).state.rx [] [] [] ∧
      (∀ u, passEnd c intStatus ret t = .again u → ret = 0) := by
  unfold passEnd
  dsimp only
  have hrx : Adds d t.rx (if intStatus &&& 8 ≠ 0 ∧ c.busypd t.rx.clock = true then t.rx.add .complete else t.rx)
      [] [] [] := by
    split
    · exact ⟨[.complete], rfl, nofun, rfl, rfl⟩
    · exact .same rfl
  split
  · next hand => exact ⟨hrx, fun _ _ => hand.1⟩
  · exact ⟨hrx, nofun⟩

theorem interruptPass_cases (t : RxLoop) : ∃ lens read handed,
    Adds d t.rx (interruptPass c d t).state.rx lens read handed ∧ LastRead d read handed ∧
      (∀ u, interruptPass c d t = .again u → read = [] ∧ handed = []) := by
  have hstatus : Adds d t.rx (hgicSdioIntStatus c t.rx).2 [] [] [] := by
    rcases log_intStatus c t.rx with hlog | hlog
    · exact .same hlog
    · exact ⟨[.abort], hlog, nofun, rfl, rfl⟩
  unfold interruptPass
  dsimp only
  split
  · obtain ⟨log, hlog, hcases⟩ := receive_cases c d (hgicSdioIntStatus c t.rx).2
    split
    · next rx heq =>
      rw [heq] at hlog hcases
      rcases hcases with ⟨hsome, -⟩ | ⟨-, hlast⟩
      · cases hsome
      · exact ⟨[], _, _, hstatus.trans ⟨log, hlog, nofun, rfl, rfl⟩, hlast, nofun⟩
    · next ret rx heq =>
      rw [heq] at hlog hcases
      dsimp only at hlog
      obtain ⟨hend, hagain⟩ := passEnd_cases c d (hgicSdioIntStatus c t.rx).1 ret
        { t with rx := rx, readMore := d.rxRetry, ready := t.ready + 1 }
      rcases hcases with ⟨-, len, hfits, hreads, hpackets⟩ | ⟨hne, hlast⟩
      · have hdata : Adds d (hgicSdioIntStatus c t.rx).2 rx [len] [] [] :=
          ⟨log, hlog, List.forall_mem_singleton.2 hfits, hreads, hpackets⟩
        exact ⟨[len], [], [], (hstatus.trans hdata).then_quiet hend, .good, fun _ _ => ⟨rfl, rfl⟩⟩
      · have hdata : Adds d (hgicSdioIntStatus c t.rx).2 rx [] (reads log) (packets log) :=
          ⟨log, hlog, nofun, rfl, rfl⟩
        exact ⟨[], _, _, (hstatus.trans hdata).then_quiet hend, hlast,
          fun u hu => absurd (congrArg some (hagain u hu)) hne⟩
  · obtain ⟨hend, -⟩ := passEnd_cases c d (hgicSdioIntStatus c t.rx).1 0 { t with rx := (hgicSdioIntStatus c t.rx).2 }
    exact ⟨[], [], [], hstatus.then_quiet hend, .good, fun _ _ => ⟨rfl, rfl⟩⟩

/-- Whatever the card and the bus do: everything that the handler reads has a length from 8 to `max_pkt_len` and is
handed on, once and in order, as it was read; the first data that cannot be read or is not taken are the last. -/
theorem interrupt_hands_on {s : Rx} {t : RxLoop} (h : Ends (interruptPass c d) (hgicSdioInterrupt d s) t) :
    ∃ log lens read handed, t.rx.log = s.log ++ log ∧ (∀ len ∈ lens, d.Fits len) ∧ LastRead d read handed ∧
      reads log = d.done lens ++ read ∧ packets log = d.done lens ++ handed := by
  obtain ⟨n, hn⟩ := h
  have hrun : ∀ n u lens, Adds d s u.rx lens [] [] → passes (interruptPass c d) n u = .leave t →
      ∃ lens read handed, Adds d s t.rx lens read handed ∧ LastRead d read handed := by
    intro n
    induction n with
    | zero => exact fun _ _ _ hp => absurd hp (by simp [passes])
    | succ n ih =>
      intro u lens hu hp
      obtain ⟨lens', read, handed, hadds, hlast, hagain⟩ := interruptPass_cases c d u
      cases hpass : interruptPass c d u with
      | leave v =>
        rw [hpass] at hadds
        rw [passes_leave hpass] at hp
        cases hp
        exact ⟨lens ++ lens', read, handed, hu.trans hadds, hlast⟩
      | again v =>
        obtain ⟨rfl, rfl⟩ := hagain v hpass
        rw [hpass] at hadds
        rw [passes_again hpass] at hp
        exact ih v _ (hu.trans hadds) hp
  have hstart : Adds d s (hgicSdioInterrupt d s).rx [] [] [] := .same rfl
  obtain ⟨lens, read, handed, ⟨log, hlog, hfits, hr, hp⟩, hlast⟩ := hrun n _ [] hstart hn
  exact ⟨log, lens, read, handed, hlog, hfits, hlast, hr, hp⟩

end HandedOn

/-- `kmalloc` aligns `rxbuf`: what is read stays inside it. -/
theorem SdioDev.Fits.inside {d : SdioDev} (halign : sdioDmaAlign ∣ d.rxbuf) {len : BitVec 32} (h : d.Fits len) :
    d.buffer = d.rxbuf ∧ d.buffer + len.toNat ≤ d.rxbuf + d.maxPktLen.toNat := by
  have hbuffer : d.buffer = d.rxbuf := by
    obtain ⟨k, hk⟩ := halign
    unfold buffer
    unfold sdioDmaAlign at hk ⊢
    omega
  rw [hbuffer]
  exact ⟨rfl, Nat.add_le_add_left (BitVec.le_def.1 h.hi) _⟩

/-! ## How often the handler looks -/

section Looks
variable (c : Card) (d : SdioDev)

theorem passEnd_looks {intStatus : Byte} {ret : Int} {t u : RxLoop} :
    (passEnd c intStatus ret t = .again u → u.looks = t.looks + 1 ∧ u.ready = t.ready ∧ u.readMore + 1 = t.readMore) ∧
      (passEnd c intStatus ret t = .leave u → u.looks = t.looks + 1 ∧ u.ready = t.ready) := by
  unfold passEnd
  dsimp only
  split
  · next hand =>
    constructor <;> rintro ⟨⟩
    exact ⟨rfl, rfl, Nat.sub_add_cancel hand.2⟩
  · constructor <;> rintro ⟨⟩
    exact ⟨rfl, rfl⟩

theorem interruptPass_again {t u : RxLoop} (h : interruptPass c d t = .again u) : u.looks = t.looks + 1 ∧
    (u.ready = t.ready ∧ u.readMore + 1 = t.readMore ∨
      (hgicSdioIntStatus c t.rx).1 &&& 1 ≠ 0 ∧ u.ready = t.ready + 1 ∧ u.readMore + 1 = d.rxRetry) := by
  unfold interruptPass at h
  dsimp only at h
  split at h
  · next hready =>
    split at h
    · cases h
    · obtain ⟨hlooks, hr, hm⟩ := (passEnd_looks c).1 h
      exact ⟨hlooks, .inr ⟨hready, hr, hm⟩⟩
  · obtain ⟨hlooks, hr, hm⟩ := (passEnd_looks c).1 h
    exact ⟨hlooks, .inl ⟨hr, hm⟩⟩

theorem interruptPass_leave {t u : RxLoop} (h : interruptPass c d t = .leave u) :
    u.looks = t.looks + 1 ∧ t.ready ≤ u.ready := by
  unfold interruptPass at h
  dsimp only at h
  split at h
  · split at h
    · cases h
      exact ⟨rfl, Nat.le_succ _⟩
    · obtain ⟨hlooks, hr⟩ := (passEnd_looks c).2 h
      exact ⟨hlooks, hr ▸ Nat.le_succ _⟩
  · obtain ⟨hlooks, hr⟩ := (passEnd_looks c).2 h
    exact ⟨hlooks, Nat.le_of_eq hr.symm⟩

/-- The passes that are over, and those that may follow without data. -/
def Bounded (t : RxLoop) : Prop := t.looks + t.readMore < (t.ready + 1) * (d.rxRetry + 1)

variable {c d} in
theorem Bounded.next {t u : RxLoop} (ht : Bounded d t) (h : interruptPass c d t = .again u) : Bounded d u := by
  unfold Bounded at ht ⊢
  obtain ⟨hlooks, ⟨hready, hmore⟩ | ⟨-, hready, hmore⟩⟩ := interruptPass_again c d h
  · rw [hlooks, hready]
    omega
  · rw [hlooks, hready, Nat.succ_mul]
    omega

theorem interrupt_passes {s : Rx} {t : RxLoop} (h : Ends (interruptPass c d) (hgicSdioInterrupt d s) t) :
    t.looks ≤ (t.ready + 1) * (d.rxRetry + 1) := by
  obtain ⟨n, hn⟩ := h
  have hstart : Bounded d (hgicSdioInterrupt d s) := by
    simp [Bounded, hgicSdioInterrupt]
  generalize hgicSdioInterrupt d s = u at hn hstart
  induction n generalizing u with
  | zero => cases hn
  | succ n ih =>
    cases hpass : interruptPass c d u with
    | leave v =>
      rw [passes_leave hpass] at hn
      cases hn
      obtain ⟨hlooks, hready⟩ := interruptPass_leave c d hpass
      have hmono : (u.ready + 1) * (d.rxRetry + 1) ≤ (t.ready + 1) * (d.rxRetry + 1) :=
        Nat.mul_le_mul_right _ (Nat.succ_le_succ hready)
      unfold Bounded at hstart
      omega
    | again v =>
      rw [passes_again hpass] at hn
      exact ih v hn (hstart.next hpass)

/-! ## The end -/

theorem clock_readRetry (fn addr retry : Nat) (s : Rx) : s.clock < (readRetry c fn addr retry s).2.clock := by
  induction retry generalizing s with
  | zero => exact Nat.lt_succ_self _
  | succ retry ih =>
    rw [readRetry]
    split
    · exact Nat.lt_of_succ_lt (ih (sdioReadb c fn addr s).2)
    · exact Nat.lt_succ_self _

theorem clock_abort (s : Rx) : s.clock < (hgicSdioAbort c s).clock := by
  have hwrite : ∀ retry s, s.clock < (writeRetry c retry s).clock := by
    intro retry
    induction retry with
    | zero => exact fun s => Nat.lt_succ_self _
    | succ retry ih =>
      intro s
      rw [writeRetry]
      split
      · exact Nat.lt_succ_self _
      · exact Nat.lt_of_succ_lt (ih { s with clock := s.clock + 1 })
  exact Nat.lt_trans (hwrite 4 s) (Nat.lt_succ_self _)

theorem clock_intStatus (s : Rx) : s.clock < (hgicSdioIntStatus c s).2.clock := by
  have hcccr : s.clock < (hgicSdioReadCccr c s).2.clock := clock_readRetry c 0 5 2 s
  have hread : ∀ s, s.clock ≤ (readIntStatus c s).2.clock := by
    intro s
    have hfirst := clock_readRetry c 1 sdioInitStatusAddr 2 s
    unfold readIntStatus hgicSdioReadb
    dsimp only
    split
    · exact Nat.le_of_lt (Nat.lt_trans hfirst (clock_readRetry c 1 _ 2 _))
    · exact Nat.le_of_lt hfirst
  unfold hgicSdioIntStatus
  dsimp only
  split
  · split
    · exact Nat.lt_trans (Nat.lt_of_lt_of_le hcccr (hread _)) (clock_abort c _)
    · exact Nat.lt_of_lt_of_le hcccr (hread _)
  · exact hcccr

theorem clock_dataLen (s : Rx) : s.clock ≤ (hgicSdioDataLen c d s).2.clock := by
  have hread : ∀ addr s, s.clock ≤ (hgicSdioReadb c 1 addr s).2.clock :=
    fun addr s => Nat.le_of_lt (clock_readRetry c 1 addr 2 s)
  have hget : ∀ addr s, s.clock ≤ (hgicSdioGetDatalen c addr s).2.clock := by
    intro addr s
    unfold hgicSdioGetDatalen
    dsimp only
    split
    · exact hread _ _
    · split <;> exact Nat.le_trans (hread addr s) (hread (addr + 1) _)
  have hsecond : s.clock ≤ (dataLen2 c d s).2.clock := by
    unfold dataLen2
    split
    · exact Nat.le_refl _
    · split
      · exact hget _ _
      · exact Nat.le_succ _
  change s.clock ≤ (announcedLen c d s).2.clock
  unfold announcedLen
  dsimp only
  split
  · exact Nat.le_trans hsecond (hget _ _)
  · exact hsecond

theorem clock_receive (s : Rx) : s.clock ≤ (receive c d s).2.clock := by
  have hlen := clock_dataLen c d s
  have hadd : ∀ s ev, s.clock ≤ (Rx.add s ev).clock := fun s ev => Nat.le_succ _
  have habort : ∀ s, s.clock ≤ (hgicSdioAbort c s).clock := fun s => Nat.le_of_lt (clock_abort c s)
  unfold receive
  dsimp only
  refine Nat.le_trans hlen ?_
  generalize (hgicSdioDataLen c d s).2 = t
  split
  · exact Nat.le_trans (habort t) (hadd _ _)
  · split
    · split
      · exact habort t
      · split
        · exact Nat.le_trans (hadd t _) (hadd _ _)
        · have hboth := Nat.le_trans (hadd t (.fromio d.buffer (hgicSdioDataLen c d s).1 (c.fromio t.clock)))
            (hadd _ (.packet d.buffer (hgicSdioDataLen c d s).1 (c.rxPacket (t.clock + 1))))
          dsimp only
          split
          · exact Nat.le_trans hboth (habort _)
          · exact hboth
    · exact habort t

theorem clock_again {t u : RxLoop} (h : interruptPass c d t = .again u) : t.rx.clock < u.rx.clock := by
  have hend : ∀ intStatus ret v, passEnd c intStatus ret v = .again u → v.rx.clock ≤ u.rx.clock := by
    intro intStatus ret v hv
    unfold passEnd at hv
    dsimp only at hv
    split at hv
    · cases hv
      dsimp only
      split
      · exact Nat.le_succ _
      · exact Nat.le_refl _
    · cases hv
  have hstatus := clock_intStatus c t.rx
  have hreceive := clock_receive c d (hgicSdioIntStatus c t.rx).2
  unfold interruptPass at h
  dsimp only at h
  split at h
  · split at h
    · cases h
    · next heq =>
      rw [heq] at hreceive
      exact Nat.lt_of_lt_of_le hstatus (Nat.le_trans hreceive (hend _ _ _ h))
  · exact Nat.lt_of_lt_of_le hstatus (hend _ _ _ h)

/-- From access `N` on the status registers can be read and announce no data. -/
def Quiet (N : Nat) : Prop := ∀ n ≥ N, ∀ addr, addr = sdioInitStatusAddr ∨ addr = sdioInitStatusAddr2 →
  ∃ b, c.readb n 1 addr = some b ∧ b &&& 1 = 0

theorem intStatus_quiet {N : Nat} (hq : Quiet c N) {s : Rx} (hs : N ≤ s.clock) :
    (hgicSdioIntStatus c s).1 &&& 1 = 0 := by
  have hread : ∀ addr, addr = sdioInitStatusAddr ∨ addr = sdioInitStatusAddr2 → ∀ retry s, N ≤ s.clock →
      (readRetry c 1 addr retry s).1.1 &&& 1 = 0 := by
    intro addr haddr retry s hs
    obtain ⟨b, hb, h0⟩ := hq s.clock hs addr haddr
    cases retry with
    | zero => rw [readRetry, sdioReadb, hb, h0]
    | succ retry =>
      rw [readRetry, sdioReadb, hb]
      exact h0
  have hcccr : N ≤ (hgicSdioReadCccr c s).2.clock := Nat.le_trans hs (Nat.le_of_lt (clock_readRetry c 0 5 2 s))
  have hfirst : N ≤ (hgicSdioReadb c 1 sdioInitStatusAddr (hgicSdioReadCccr c s).2).2.clock :=
    Nat.le_trans hcccr (Nat.le_of_lt (clock_readRetry c 1 _ 2 _))
  have hboth : (readIntStatus c (hgicSdioReadCccr c s).2).1 &&& 1 = 0 := by
    unfold readIntStatus
    dsimp only
    split
    · exact hread _ (.inr rfl) 2 _ hfirst
    · exact hread _ (.inl rfl) 2 _ hcccr
  have hzero : (0 : Byte) &&& 1 = 0 := by decide
  unfold hgicSdioIntStatus
  dsimp only
  split
  · split
    · exact hzero
    · exact hboth
  · exact hzero

theorem interrupt_halts {N : Nat} (hq : Quiet c N) (s : Rx) : Halts (interruptPass c d) (hgicSdioInterrupt d s) := by
  refine halts_of_measure (fun t => t.readMore ≤ d.rxRetry)
    (fun t => (N - t.rx.clock) * (d.rxRetry + 1) + t.readMore) ?_ (Nat.le_refl d.rxRetry)
  intro t u ht hpass
  have hclock := clock_again c d hpass
  obtain ⟨-, ⟨-, hmore⟩ | ⟨hready, -, hmore⟩⟩ := interruptPass_again c d hpass
  · have hmono := Nat.mul_le_mul_right (d.rxRetry + 1) (show N - u.rx.clock ≤ N - t.rx.clock by omega)
    exact ⟨by omega, by omega⟩
  · have hearly : t.rx.clock < N := by
      by_contra hlate
      exact hready (intStatus_quiet c hq (Nat.le_of_not_lt hlate))
    have hmono := Nat.mul_le_mul_right (d.rxRetry + 1) (show N - u.rx.clock + 1 ≤ N - t.rx.clock by omega)
    rw [Nat.succ_mul] at hmono
    exact ⟨by omega, by omega⟩

/-- The handler ends when the card stops announcing data, however long it did. It has then looked at most `rx_retry + 1`
times, and as often again each time it found data. -/
theorem interrupt_ends {N : Nat} (hq : Quiet c N) (s : Rx) :
    ∃ t, Ends (interruptPass c d) (hgicSdioInterrupt d s) t ∧ t.looks ≤ (t.ready + 1) * (d.rxRetry + 1) := by
  obtain ⟨t, ht⟩ := interrupt_halts c d hq s
  exact ⟨t, ht, interrupt_passes c d ht⟩

end Looks

/-- A card that announces one block at first, and then nothing. -/
def oneBlock : Card where
  readb n fn addr := some (if fn = 0 then 2 else if addr = sdioInitStatusAddr then if n < 2 then 1 else 0
    else if addr = sdioTransCountAddr2 then 1 else 0)
  writeb _ := true
  fromio _ := 0
  rxPacket _ := 0
  inboot _ := false
  busypd _ := false

/-- A driver that is called by interrupts. -/
def interruptDev : SdioDev := ⟨false, 0, 8192, 0x1000⟩

def interruptStart : RxLoop := hgicSdioInterrupt interruptDev ⟨0, []⟩

theorem interrupt_hands_on_block : ∃ t, Ends (interruptPass oneBlock interruptDev) interruptStart t ∧
    ∃ lens read handed, (∀ len ∈ lens, interruptDev.Fits len) ∧ LastRead interruptDev read handed ∧
      reads t.rx.log = interruptDev.done lens ++ read ∧ packets t.rx.log = interruptDev.done lens ++ handed := by
  have hends : Ends (interruptPass oneBlock interruptDev) interruptStart
      ⟨⟨5, [.fromio 0x1000 64 0, .packet 0x1000 64 0]⟩, 0, 1, 1⟩ := .leave (by rfl)
  obtain ⟨log, lens, read, handed, hlog, hrest⟩ := interrupt_hands_on oneBlock interruptDev hends
  obtain rfl : _ = log := hlog
  exact ⟨_, hends, lens, read, handed, hrest⟩

theorem interrupt_ends_block : ∃ t, Ends (interruptPass oneBlock interruptDev) interruptStart t ∧
    t.looks ≤ (t.ready + 1) * (interruptDev.rxRetry + 1) := by
  refine interrupt_ends oneBlock interruptDev (N := 2) (fun n hn addr haddr => ⟨0, ?_, by decide⟩) ⟨0, []⟩
  rcases haddr with rfl | rfl
  · exact congrArg some (if_neg (Nat.not_lt.2 hn))
  · rfl

end HgicFmac.Sdio
