import HgicFmac.Event.Model
import HgicFmac.Iwpriv.GetSafe
import HgicFmac.Iwpriv.TestApp

/-!
# Where the proc files write

* `WriteOut.Inside` : the answer fits the kernel buffer, and the caller's buffer is not left;
* `plain_inside` : a handler that does not set the length stays inside;
* `WriteOk`, `EventOk` : the requests and the events that fit;
* `proc_writes_inside` : nothing is written outside exactly for them.
-/

namespace HgicFmac.Iwpriv
open Lib Fwctrl Event

/-- The kernel buffer has `count + 32` bytes, the caller's `count`. -/
structure WriteOut.Inside (out : WriteOut) (count : Nat) : Prop where
  placed : ∀ p ∈ out.placed, p.1 + p.2 ≤ count + 32
  back : ∀ bs ∈ out.back, 4 + bs.length ≤ count
  result : out.result.isSome = true → 4 ≤ count

/-! ## Requests -/

/-- There is room for all names, or for the list of networks. -/
def WriteOk (env : WriteEnv) (content : List UInt8) : Prop :=
  env.alloc = true → env.fromUser = true →
    match callOf content with
    | .dump => env.dumpMem = true → 2042 + 4 ≤ content.length
    | .get off args =>
      env.copied = true → findGet (getField (cutArgs args)) = some .scanList → env.get.kmem = true →
        0 < env.get.status →
        let n := scanLength env.get % 2 ^ 16
        off + n ≤ content.length + 32 ∧ (n = 0 ∨ n + 4 ≤ content.length)
    | _ => True

section
variable {env : WriteEnv} {content : List UInt8} (hcount : 4 ≤ content.length)
include hcount

theorem finish_inside {placed : Option (Nat × Nat)} {sent : Run (Option Msg)} {back : Option (List UInt8)}
    {result : Run Int} :
    (env.finish content.length placed sent back result).Inside content.length ↔
      (∀ p ∈ placed, p.1 + p.2 ≤ content.length + 32) ∧ ∀ bs ∈ back, 4 + bs.length ≤ content.length := by
  unfold WriteEnv.finish
  split
  · exact ⟨fun h => ⟨h.placed, h.back⟩, fun h => ⟨h.1, h.2, fun _ => hcount⟩⟩
  · exact ⟨fun h => ⟨h.placed, h.back⟩, fun h => ⟨h.1, h.2, fun _ => hcount⟩⟩

theorem command_inside (res : Run Res) : (env.command content.length res).Inside content.length :=
  (finish_inside hcount).mpr ⟨nofun, nofun⟩

theorem dump_inside :
    (env.dump content).Inside content.length ↔ (env.dumpMem = true → 2042 + 4 ≤ content.length) := by
  unfold WriteEnv.dump
  split
  · next hm =>
    rw [forall_prop_of_true hm]
    dsimp only
    rw [finish_inside hcount, dumpText_length]
    simp only [Option.mem_some_iff, forall_eq', length_read, List.length_take, dumpText_length]
    omega
  · next hm =>
    refine iff_of_true ((finish_inside hcount).mpr ⟨nofun, nofun⟩) fun h => absurd h hm

theorem answer_inside {off : Nat} {args : List UInt8} {out : GetOut} {n : Nat}
    (hout : hgicIwprivGetProc env.get env.copied (cutArgs args) = out) (hn : out.length (cutArgs args).length = n) :
    (env.answer content off args).Inside content.length ↔
      (out.copy.isSome = true → off + n ≤ content.length + 32) ∧ (out.ret = 0 → n = 0 ∨ n + 4 ≤ content.length) := by
  have hplaced : (∀ p ∈ out.copy.map fun _ => (off, n), p.1 + p.2 ≤ content.length + 32) ↔
      (out.copy.isSome = true → off + n ≤ content.length + 32) := by
    cases out.copy with
    | none => exact iff_of_true nofun nofun
    | some c => simp
  unfold WriteEnv.answer
  rw [hout]
  dsimp only
  rw [hn]
  split
  · next h =>
    rw [finish_inside hcount, hplaced]
    simp only [Option.mem_some_iff, forall_eq', length_read]
    have hback : 4 + min n content.length ≤ content.length ↔ (out.ret = 0 → n = 0 ∨ n + 4 ≤ content.length) := by
      rw [forall_prop_of_true h.1]
      omega
    rw [hback]
  · next h =>
    rw [finish_inside hcount, hplaced]
    exact and_congr_right fun _ => iff_of_true nofun fun h0 => .inl (not_not.mp fun hne => h ⟨h0, hne⟩)

/-- A handler that does not set the length leaves one that is no larger than that of the arguments. -/
theorem plain_inside {off : Nat} {args : List UInt8} (hcall : callOf content = .get off args)
    (hset : (hgicIwprivGetProc env.get env.copied (cutArgs args)).setLen = none) :
    (env.answer content off args).Inside content.length := by
  apply (answer_inside hcount rfl rfl).mpr
  obtain rfl | ⟨hoff, hargs⟩ := callOf_get hcall
  · have hnil : cutArgs [] = [] := rfl
    rw [hnil, getProc_nil]
    exact ⟨nofun, fun h => absurd h (by decide)⟩
  · have hle := getOut_length_le (hgicIwprivGetProc env.get env.copied (cutArgs args)) (cutArgs args).length
    have hcut := (cutArgs_length args).1
    rw [hset, Option.getD_none] at hle
    exact ⟨fun _ => by omega, fun _ => .inr (by omega)⟩

theorem scan_inside {off : Nat} {args : List UInt8}
    (hget : hgicIwprivGetProc env.get env.copied (cutArgs args) = hgicIwprivGetScanList env.get (cutArgs args))
    (hk : env.get.kmem = true) (hpos : 0 < env.get.status) :
    (env.answer content off args).Inside content.length ↔
      off + scanLength env.get % 2 ^ 16 ≤ content.length + 32 ∧
        (scanLength env.get % 2 ^ 16 = 0 ∨ scanLength env.get % 2 ^ 16 + 4 ≤ content.length) := by
  have hout : hgicIwprivGetScanList env.get (cutArgs args) =
      ⟨0, some HgicCmd.getScanList, some ((scanText env.get).length % 2 ^ 16),
        some ⟨Mem.ofList (scanText env.get), (scanText env.get).length, (scanText env.get).length⟩,
        [⟨(scanText env.get).length + 1, 4096⟩], scanReads env.get⟩ := by
    unfold hgicIwprivGetScanList
    rw [if_neg (not_not.mpr hk), if_pos hpos]
  have hlen : (hgicIwprivGetScanList env.get (cutArgs args)).length (cutArgs args).length =
      scanLength env.get % 2 ^ 16 := by
    rw [hout, scanText_length]
    show (min (scanLength env.get : Int) ((scanLength env.get % 2 ^ 16 : Nat) : Int)).toNat = _
    omega
  rw [answer_inside hcount hget hlen, hout]
  exact and_congr (forall_prop_of_true rfl) (forall_prop_of_true rfl)

theorem get_inside {off : Nat} {args : List UInt8} (hcall : callOf content = .get off args) :
    (env.answer content off args).Inside content.length ↔
      (env.copied = true → findGet (getField (cutArgs args)) = some .scanList → env.get.kmem = true →
        0 < env.get.status →
        off + scanLength env.get % 2 ^ 16 ≤ content.length + 32 ∧
          (scanLength env.get % 2 ^ 16 = 0 ∨ scanLength env.get % 2 ^ 16 + 4 ≤ content.length)) := by
  by_cases hscan : env.copied = true ∧ findGet (getField (cutArgs args)) = some .scanList
  · obtain ⟨hcopied, hfind⟩ := hscan
    have hget : hgicIwprivGetProc env.get env.copied (cutArgs args) =
        hgicIwprivGetScanList env.get (cutArgs args) := by
      unfold hgicIwprivGetProc
      rw [if_pos hcopied, hfind]
      rfl
    rw [forall_prop_of_true hcopied, forall_prop_of_true hfind]
    by_cases hans : env.get.kmem = true ∧ 0 < env.get.status
    · rw [forall_prop_of_true hans.1, forall_prop_of_true hans.2]
      exact scan_inside hcount hget hans.1 hans.2
    · refine iff_of_true (plain_inside hcount hcall ?_) fun hk hpos => absurd ⟨hk, hpos⟩ hans
      rw [hget, scanList_setLen, if_neg hans]
  · refine iff_of_true (plain_inside hcount hcall ?_) fun hc hf => absurd ⟨hc, hf⟩ hscan
    unfold hgicIwprivGetProc
    split
    · next hc =>
      split
      · next g hg => exact setLen_eq_none (fun h => hscan ⟨hc, h ▸ hg⟩) _ _
      · rfl
    · rfl

theorem write_inside : (hgicfIwprivWrite env content).Inside content.length ↔ WriteOk env content := by
  have hne : content ≠ [] := List.length_pos_iff.mp (Nat.lt_of_lt_of_le (by decide) hcount)
  have hfail : ∀ ret, (WriteOut.fail ret).Inside content.length := fun _ => ⟨nofun, nofun, nofun⟩
  unfold hgicfIwprivWrite WriteOk
  rw [if_neg hne]
  split
  · next ha =>
    rw [forall_prop_of_true ha]
    split
    · next hu =>
      rw [forall_prop_of_true hu]
      cases hcall : callOf content with
      | dump => exact dump_inside hcount
      | set args => exact iff_of_true (command_inside hcount _) trivial
      | get off args => exact get_inside hcount hcall
      | scan cmd => exact iff_of_true (command_inside hcount _) trivial
      | save => exact iff_of_true (command_inside hcount _) trivial
      | invalid => exact iff_of_true (hfail _) trivial
    · next hu => exact iff_of_true (hfail _) fun h => absurd h hu
  · next ha => exact iff_of_true (hfail _) fun h => absurd h ha

end

/-! ## Events -/

/-- The event that is taken is no longer than the caller's buffer. -/
def EventOk (s : Evt) (count : Nat) : Prop := 0 < s.evtSema → ∀ p ∈ s.evtList.head?, p.data.length ≤ count

theorem event_inside (s : Evt) (ok : Bool) (count : Nat) :
    (hgicfFweventRead s ok).1.copied ≤ count ↔ EventOk s count := by
  unfold hgicfFweventRead EventOk
  split
  · next h => exact iff_of_true (Nat.zero_le _) fun h' => absurd h (Nat.ne_of_gt h')
  next h =>
  rw [forall_prop_of_true (Nat.pos_of_ne_zero h)]
  cases s.evtList with
  | nil => exact iff_of_true (Nat.zero_le _) nofun
  | cons p l =>
    have hcopied : (Outcome.copy p ok).copied = p.data.length := by cases ok <;> rfl
    dsimp only
    rw [hcopied]
    simp

theorem proc_writes_inside (env : WriteEnv) (content : List UInt8) (hcount : 4 ≤ content.length) (s : Evt) (ok : Bool)
    (count : Nat) :
    ((hgicfIwprivWrite env content).Inside content.length ↔ WriteOk env content) ∧
      ((hgicfFweventRead s ok).1.copied ≤ count ↔ EventOk s count) :=
  ⟨write_inside hcount, event_inside s ok count⟩

/-- A request for `mode`, and a read with no event. -/
theorem proc_writes_inside_mode :
    (hgicfIwprivWrite (calmEnv fun _ => 0) (bytes "hg0 get mode")).Inside 12 ∧
      (hgicfFweventRead Evt.init true).1.copied ≤ 0 := by
  have h := proc_writes_inside (calmEnv fun _ => 0) (bytes "hg0 get mode") (by decide) Evt.init true 0
  refine ⟨h.1.mpr ?_, h.2.mpr nofun⟩
  have hcall : callOf (bytes "hg0 get mode") = .get 8 (bytes "mode") := by decide +kernel
  have hfind : findGet (getField (cutArgs (bytes "mode"))) ≠ some .scanList := by decide +kernel
  intro _ _
  rw [hcall]
  exact fun _ h => absurd h hfind

/-- All names are copied for a request of 4 bytes: 4 of them lie behind the caller's buffer. -/
theorem dump_leaves_buffer : ¬ (hgicfIwprivWrite (calmEnv fun _ => 0) (bytes "help")).Inside 4 := by
  have hback : (hgicfIwprivWrite (calmEnv fun _ => 0) (bytes "help")).back = some (dumpText.take 4) := by decide +kernel
  intro h
  exact absurd (h.back _ hback) (by decide)

end HgicFmac.Iwpriv
