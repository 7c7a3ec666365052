import HgicFmac.Iwpriv.TestApp

/-!
# The buffer of `hgic_iwpriv_do`

One allocation of `strlen(cmd) + max(in_len, out_len)` bytes holds the request, the result word and the answer.

* `DoArgs` : the lengths, with pointers that may be NULL; `bufLen` : the size, as an `int`;
* `doAccesses` : all that `hgic_iwpriv_do` reads and writes in the buffer; `DoInside` : it stays inside, whatever the
  driver returns;
* `doInside_iff` : the lengths for which it does; `text_not_inside` : those of the setters that pass a text alone are
  not among them;
* `request_runs_iff` : the buffer of the request has room for the command exactly when the access of `strcpy` is inside.
-/

namespace HgicFmac.Iwpriv
open Lib

/-- The arguments: `in` and `out` may be NULL, and their lengths are not negative. -/
structure DoArgs where
  cmd : List UInt8
  hasIn : Bool
  inLen : Nat
  hasOut : Bool
  outLen : Nat
  inLen_lt : inLen < 2 ^ 31
  outLen_lt : outLen < 2 ^ 31

def DoArgs.room (a : DoArgs) : Nat := max a.inLen a.outLen

/-- `ret` and `len`, which are `int`s. -/
def DoArgs.cmdLen (a : DoArgs) : Int := toS32 a.cmd.length
def DoArgs.bufLen (a : DoArgs) : Int := toS32 (a.cmdLen + a.room)

/-- The offset in the buffer of an access and the number of bytes. -/
abbrev BufAccess := Int × Nat

def BufAccess.Inside (len : Int) (x : BufAccess) : Prop := x.2 = 0 ∨ 0 ≤ x.1 ∧ x.1 + x.2 ≤ len

/-- The read of the result word and of the answer, when the file could be opened and `reply` is what `write` returns and
leaves in the buffer. -/
def replyAccesses (e : Endian) (a : DoArgs) (reply : Int × Mem) : List BufAccess :=
  if 0 < reply.1 then
    let ret := toS32 (load32 e reply.2 0)
    (0, 4) :: if 0 < ret ∧ a.hasOut ∧ a.outLen ≠ 0 then [(4, min ret.toNat (a.outLen - 1))] else []
  else []

/-- `memset`, `strcpy` with the terminating zero, the input, and `write` with what follows it. `malloc` of a negative
size fails. -/
def doAccesses (user : User) (e : Endian) (a : DoArgs) (reply : Int × Mem) : List BufAccess :=
  if user.malloc ∧ 0 ≤ a.bufLen then
    (0, a.bufLen.toNat) :: (0, a.cmd.length + 1) :: (if a.hasIn ∧ a.inLen ≠ 0 then [(a.cmdLen, a.inLen)] else []) ++
      if 0 < a.bufLen ∧ user.opened then (0, a.bufLen.toNat) :: replyAccesses e a reply else []
  else []

def DoInside (e : Endian) (a : DoArgs) : Prop :=
  ∀ user reply, ∀ x ∈ doAccesses user e a reply, x.Inside a.bufLen

/-! ## The lengths -/

theorem bufLen_eq (a : DoArgs) : a.bufLen = toS32 (a.cmd.length + a.room : Nat) := by
  unfold DoArgs.bufLen DoArgs.cmdLen toS32
  omega

/-- The size overflows to a negative number, and there is no buffer. -/
theorem bufLen_neg_iff (a : DoArgs) : a.bufLen < 0 ↔ 2 ^ 31 ≤ (a.cmd.length + a.room) % 2 ^ 32 := by
  rw [bufLen_eq]
  unfold toS32
  omega

theorem bufLen_of_lt {a : DoArgs} (h : a.cmd.length + a.room < 2 ^ 31) :
    a.bufLen = (a.cmd.length + a.room : Nat) ∧ a.cmdLen = a.cmd.length := by
  rw [bufLen_eq]
  unfold DoArgs.cmdLen toS32
  omega

theorem room_lt (a : DoArgs) : a.room < 2 ^ 31 := Nat.max_lt.mpr ⟨a.inLen_lt, a.outLen_lt⟩

/-- There is room for the zero behind the command, for the result word and for the answer. -/
def DoArgs.HasRoom (a : DoArgs) : Prop :=
  1 ≤ a.room ∧ 4 ≤ a.cmd.length + a.room ∧ (a.hasOut → 0 < a.outLen → a.outLen + 3 ≤ a.cmd.length + a.room)

instance (a : DoArgs) : Decidable a.HasRoom := inferInstanceAs (Decidable (_ ∧ _ ∧ _))

/-! ## The accesses -/

theorem inside_of_le {len off : Int} {n : Nat} (h0 : 0 ≤ off) (h : off + n ≤ len) : BufAccess.Inside len (off, n) :=
  .inr ⟨h0, h⟩

theorem inside_iff (off : Nat) {n : Nat} (hn : n ≠ 0) {len : Int} :
    BufAccess.Inside len ((off : Int), n) ↔ (off : Int) + n ≤ len := by
  unfold BufAccess.Inside
  rw [or_iff_right hn]
  exact and_iff_right (Int.natCast_nonneg off)

theorem replyAccesses_inside {e : Endian} {a : DoArgs} (hlen : a.cmd.length + a.room < 2 ^ 31) (h : a.HasRoom)
    (reply : Int × Mem) : ∀ x ∈ replyAccesses e a reply, x.Inside a.bufLen := by
  obtain ⟨-, hword, hout⟩ := h
  obtain ⟨hbuf, -⟩ := bufLen_of_lt hlen
  intro x hx
  unfold replyAccesses at hx
  split at hx
  · rcases List.mem_cons.mp hx with rfl | hx
    · exact inside_of_le (Int.le_refl 0) (by omega)
    · split at hx
      · next hret =>
        rw [List.mem_singleton.mp hx]
        have hroom := hout hret.2.1 (Nat.pos_of_ne_zero hret.2.2)
        exact inside_of_le (by omega) (by omega)
      · cases hx
  · cases hx

theorem doInside_of_hasRoom {e : Endian} {a : DoArgs} (hlen : a.cmd.length + a.room < 2 ^ 31) (h : a.HasRoom) :
    DoInside e a := by
  obtain ⟨hbuf, hcmd⟩ := bufLen_of_lt hlen
  have hin : a.inLen ≤ a.room := Nat.le_max_left ..
  have hpos := h.1
  intro user reply x hx
  unfold doAccesses at hx
  split at hx
  · rw [List.mem_append, List.mem_cons, List.mem_cons] at hx
    obtain (rfl | rfl | hx) | hx := hx
    · exact inside_of_le (Int.le_refl 0) (by omega)
    · exact inside_of_le (Int.le_refl 0) (by omega)
    · split at hx
      · rw [List.mem_singleton.mp hx]
        exact inside_of_le (by omega) (by omega)
      · cases hx
    · split at hx
      · rcases List.mem_cons.mp hx with rfl | hx
        · exact inside_of_le (Int.le_refl 0) (by omega)
        · exact replyAccesses_inside hlen h reply x hx
      · cases hx
  · cases hx

/-- The driver is reached, and its answer is as long as an `int` can say. -/
def fullReply (e : Endian) : Int × Mem := (1, Mem.write (fun _ => 0) 0 (bytes32 e (2 ^ 31 - 1)))

theorem fullReply_ret (e : Endian) : toS32 (load32 e (fullReply e).2 0) = 2 ^ 31 - 1 := by
  unfold fullReply
  rw [load32_write]
  decide

theorem fullReply_inside {e : Endian} {a : DoArgs} {len : Int}
    (h : ∀ x ∈ replyAccesses e a (fullReply e), x.Inside len) :
    4 ≤ len ∧ (a.hasOut → 0 < a.outLen → a.outLen + 3 ≤ len) := by
  unfold replyAccesses at h
  rw [if_pos (show 0 < (fullReply e).1 from Int.one_pos), fullReply_ret] at h
  have hword := (inside_iff 0 (by decide)).mp (h (0, 4) List.mem_cons_self)
  refine ⟨by omega, ?_⟩
  intro hout hpos
  by_cases hone : a.outLen = 1
  · omega
  · have hmem := h (4, min (2 ^ 31 - 1 : Int).toNat (a.outLen - 1)) (List.mem_cons_of_mem _ (by
      rw [if_pos ⟨by decide, hout, Nat.ne_of_gt hpos⟩]
      exact List.mem_singleton_self _))
    have hread := (inside_iff 4 (by omega)).mp hmem
    have := a.outLen_lt
    omega

theorem hasRoom_of_doInside {e : Endian} {a : DoArgs} (hlen : 0 ≤ a.bufLen) (h : DoInside e a) :
    a.cmd.length + a.room < 2 ^ 31 ∧ a.HasRoom := by
  have hall : ∀ x ∈ doAccesses ⟨true, true⟩ e a (fullReply e), x.Inside a.bufLen := h ⟨true, true⟩ (fullReply e)
  unfold doAccesses at hall
  rw [if_pos ⟨rfl, hlen⟩] at hall
  have hstr := (inside_iff 0 (Nat.succ_ne_zero a.cmd.length)).mp
    (hall _ (List.mem_append_left _ (List.mem_cons_of_mem _ List.mem_cons_self)))
  -- with the command in front of it, the room cannot make the size wrap back to a positive number
  have hlt : a.cmd.length + a.room < 2 ^ 31 := by
    have hroom := room_lt a
    have hbuf := bufLen_eq a
    unfold toS32 at hbuf
    omega
  obtain ⟨hbuf, -⟩ := bufLen_of_lt hlt
  have hreply : ∀ x ∈ replyAccesses e a (fullReply e), x.Inside a.bufLen := by
    intro x hx
    apply hall x
    have hopen : 0 < a.bufLen ∧ User.opened ⟨true, true⟩ = true := ⟨by omega, rfl⟩
    rw [if_pos hopen]
    exact List.mem_append_right _ (List.mem_cons_of_mem _ hx)
  obtain ⟨hword, hout⟩ := fullReply_inside hreply
  refine ⟨hlt, by omega, by omega, ?_⟩
  intro ho hpos
  have := hout ho hpos
  omega

/-- **The buffer**: nothing outside it is accessed exactly when its size overflows, so that there is none, or there is
room for all. -/
theorem doInside_iff (e : Endian) (a : DoArgs) :
    DoInside e a ↔ 2 ^ 31 ≤ (a.cmd.length + a.room) % 2 ^ 32 ∨ a.cmd.length + a.room < 2 ^ 31 ∧ a.HasRoom := by
  rw [← bufLen_neg_iff]
  constructor
  · intro h
    by_cases hneg : a.bufLen < 0
    · exact .inl hneg
    · exact .inr (hasRoom_of_doInside (Int.not_lt.mp hneg) h)
  · rintro (hneg | ⟨hlen, hroom⟩)
    · intro user reply x hx
      unfold doAccesses at hx
      rw [if_neg fun h => absurd h.2 (Int.not_le.mpr hneg)] at hx
      cases hx
    · exact doInside_of_hasRoom hlen hroom

/-- The arguments of `hgic_iwpriv_set_int`, `hgic_iwpriv_set_mac` and `hgic_iwpriv_set_ints`: all is in the text. -/
def DoArgs.text (cmd : List UInt8) : DoArgs := ⟨cmd, false, 0, false, 0, by decide, by decide⟩

theorem text_not_inside (e : Endian) {cmd : List UInt8} (h : cmd.length < 2 ^ 31) : ¬ DoInside e (DoArgs.text cmd) := by
  intro hin
  have hlen : 0 ≤ (DoArgs.text cmd).bufLen := by
    rw [(bufLen_of_lt (show (DoArgs.text cmd).cmd.length + (DoArgs.text cmd).room < 2 ^ 31 from h)).1]
    exact Int.natCast_nonneg _
  exact Nat.not_succ_le_zero 0 (hasRoom_of_doInside hlen hin).2.1

theorem set_channel_not_inside : ¬ DoInside .little (DoArgs.text (bytes "hg0 set channel=6")) :=
  text_not_inside .little (by decide)

theorem request_runs_iff (cmd inp : List UInt8) (outLen : Nat) :
    Runs (request cmd inp outLen) ↔
      BufAccess.Inside (cmd.length + max inp.length outLen : Nat) (0, cmd.length + 1) := by
  refine Iff.trans ?_ (inside_iff 0 (Nat.succ_ne_zero cmd.length)).symm
  unfold request
  split
  · next h =>
    obtain ⟨rfl, rfl⟩ := h
    refine iff_of_false (not_runs_error _) ?_
    rw [List.length_nil]
    omega
  · next h =>
    refine iff_of_true (runs_ok _) ?_
    have hroom : 1 ≤ max inp.length outLen := by
      by_contra hlt
      apply h
      exact ⟨List.eq_nil_of_length_eq_zero (by omega), by omega⟩
    omega

end HgicFmac.Iwpriv
