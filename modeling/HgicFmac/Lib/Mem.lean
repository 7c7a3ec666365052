import Mathlib.Algebra.Group.Int.Defs
import Mathlib.Algebra.GroupWithZero.Nat
import Mathlib.Data.List.Basic
import Mathlib.Tactic.Common

/-!
# Byte memory and 16-bit fields in host and in little-endian order

* `Mem`, `Mem.read`, `Mem.write` : memory as bytes by address; a write changes exactly its range
  (`write_of_lt`, `write_of_le`, `read_write_of_ge`, `read_write_self`);
* `load16 e`, `bytes16 e` : a 16-bit field in the byte order `e` of the host (`load16_write`);
* `loadLe16` : the same field read as little-endian; `cpuToLe16 e` : the conversion that makes
  the two agree (`le16ToCpu_cpuToLe16`);
* `load32 e`, `bytes32 e` : a 32-bit field in the byte order `e` (`load32_lt`, `load32_write`).
-/

namespace HgicFmac.Lib

/-- The byte order of the host. -/
inductive Endian
  | little | big
  deriving DecidableEq, Repr

abbrev Mem := Nat → UInt8

def Mem.write (m : Mem) (off : Nat) (bs : List UInt8) : Mem :=
  fun i => if off ≤ i ∧ i < off + bs.length then bs.getD (i - off) 0 else m i

def Mem.read (m : Mem) (off n : Nat) : List UInt8 := (List.range n).map fun i => m (off + i)

def Mem.ofList (bs : List UInt8) : Mem := fun i => bs.getD i 0

def loadLe16 (m : Mem) (off : Nat) : Nat := (m off).toNat + 256 * (m (off + 1)).toNat

/-- A 16-bit field, as the host reads it. -/
def load16 : Endian → Mem → Nat → Nat
  | .little, m, off => loadLe16 m off
  | .big, m, off => 256 * (m off).toNat + (m (off + 1)).toNat

/-- The two bytes of a 16-bit field, as the host stores it. -/
def bytes16 : Endian → Nat → List UInt8
  | .little, x => [UInt8.ofNat (x % 256), UInt8.ofNat (x / 256 % 256)]
  | .big, x => [UInt8.ofNat (x / 256 % 256), UInt8.ofNat (x % 256)]

def load32 : Endian → Mem → Nat → Nat
  | .little, m, off => loadLe16 m off + 65536 * loadLe16 m (off + 2)
  | .big, m, off => 65536 * load16 .big m off + load16 .big m (off + 2)

def bytes32 : Endian → Nat → List UInt8
  | .little, x => bytes16 .little x ++ bytes16 .little (x / 65536)
  | .big, x => bytes16 .big (x / 65536) ++ bytes16 .big x

def cpuToLe16 : Endian → Nat → Nat
  | .little, x => x % 65536
  | .big, x => x % 256 * 256 + x / 256 % 256

/-- The inverse of `cpuToLe16` is the same swap. -/
def le16ToCpu (e : Endian) (x : Nat) : Nat := cpuToLe16 e x

theorem le16ToCpu_cpuToLe16 (e : Endian) (x : Nat) : le16ToCpu e (cpuToLe16 e x) = x % 65536 := by
  cases e with
  | little =>
    simp only [le16ToCpu, cpuToLe16]
    omega
  | big =>
    have hx : x % 65536 = x % 256 + 256 * (x / 256 % 256) := by omega
    have hlo := Nat.mod_lt x (by decide : 0 < 256)
    have hhi := Nat.mod_lt (x / 256) (by decide : 0 < 256)
    simp only [le16ToCpu, cpuToLe16]
    rw [hx]
    generalize x % 256 = lo at *
    generalize x / 256 % 256 = hi at *
    rw [show (lo * 256 + hi) % 256 = hi by omega, show (lo * 256 + hi) / 256 = lo by omega]
    omega

theorem cpuToLe16_lt (e : Endian) (x : Nat) : cpuToLe16 e x < 65536 := by
  cases e <;> simp only [cpuToLe16] <;> omega

theorem cpuToLe16_pos (e : Endian) {x : Nat} (h0 : 0 < x) (h : x < 65536) : 0 < cpuToLe16 e x := by
  cases e <;> simp only [cpuToLe16] <;> omega

/-! ## Reads and writes -/

theorem write_of_lt (m : Mem) (bs : List UInt8) {off i : Nat} (h : i < off) : m.write off bs i = m i := by
  unfold Mem.write
  rw [if_neg (by omega)]

theorem write_of_le (m : Mem) (bs : List UInt8) {off i : Nat} (h : off + bs.length ≤ i) :
    m.write off bs i = m i := by
  unfold Mem.write
  rw [if_neg (by omega)]

theorem write_at (m : Mem) (bs : List UInt8) {off k : Nat} (h : k < bs.length) :
    m.write off bs (off + k) = bs.getD k 0 := by
  unfold Mem.write
  rw [if_pos (by omega), Nat.add_sub_cancel_left]

theorem write_zero (m : Mem) (bs : List UInt8) {k : Nat} (h : k < bs.length) : m.write 0 bs k = bs.getD k 0 := by
  have hk := @write_at m bs 0 k h
  rw [Nat.zero_add] at hk
  exact hk

@[simp] theorem length_read (m : Mem) (off n : Nat) : (m.read off n).length = n := by simp [Mem.read]

theorem getD_read (m : Mem) (off : Nat) {n k : Nat} (h : k < n) : (m.read off n).getD k 0 = m (off + k) := by
  simp [Mem.read, h]

theorem read_congr {m m' : Mem} {off n : Nat} (h : ∀ i, off ≤ i → i < off + n → m i = m' i) :
    m.read off n = m'.read off n := by
  unfold Mem.read
  apply List.map_congr_left
  intro i hi
  rw [List.mem_range] at hi
  exact h (off + i) (by omega) (by omega)

theorem read_write_of_ge (m : Mem) (bs : List UInt8) {off n off' : Nat} (h : off' + bs.length ≤ off) :
    (m.write off' bs).read off n = m.read off n :=
  read_congr fun _ hi _ => write_of_le m bs (by omega)

theorem read_write_self (m : Mem) (off : Nat) (bs : List UInt8) : (m.write off bs).read off bs.length = bs := by
  apply List.ext_getElem
  · simp
  · intro k hk hk'
    have := getD_read (m.write off bs) off hk'
    rw [write_at m bs hk'] at this
    simpa [List.getD_eq_getElem?_getD, hk', hk] using this

theorem read_add (m : Mem) (off n k : Nat) : m.read off (n + k) = m.read off n ++ m.read (off + n) k := by
  unfold Mem.read
  rw [List.range_add, List.map_append, List.map_map]
  congr 1
  apply List.map_congr_left
  intro i _
  simp only [Function.comp_apply, Nat.add_assoc]

theorem take_read (m : Mem) (off : Nat) {n k : Nat} (h : k ≤ n) : (m.read off n).take k = m.read off k := by
  obtain ⟨j, rfl⟩ := Nat.exists_eq_add_of_le h
  rw [read_add]
  exact List.take_left' (length_read m off k)

theorem drop_read (m : Mem) (off : Nat) {n k : Nat} (h : k ≤ n) :
    (m.read off n).drop k = m.read (off + k) (n - k) := by
  obtain ⟨j, rfl⟩ := Nat.exists_eq_add_of_le h
  rw [read_add, Nat.add_sub_cancel_left]
  exact List.drop_left' (length_read m off k)

theorem read_ofList (bs : List UInt8) {n : Nat} (h : n ≤ bs.length) : (Mem.ofList bs).read 0 n = bs.take n := by
  apply List.ext_getElem
  · simp [h]
  · intro k hk hk'
    have hk2 : k < n := by simpa using hk
    have hk3 : k < bs.length := by omega
    simp [Mem.read, Mem.ofList, hk3]

/-! ## 16-bit fields -/

theorem length_bytes16 (e : Endian) (x : Nat) : (bytes16 e x).length = 2 := by
  cases e <;> rfl

theorem load16_congr (e : Endian) {m m' : Mem} {off : Nat} (h0 : m off = m' off) (h1 : m (off + 1) = m' (off + 1)) :
    load16 e m off = load16 e m' off := by
  cases e <;> simp only [load16, loadLe16, h0, h1]

theorem load16_lt (e : Endian) (m : Mem) (off : Nat) : load16 e m off < 65536 := by
  have h0 := (m off).toNat_lt
  have h1 := (m (off + 1)).toNat_lt
  cases e <;> simp only [load16, loadLe16] <;> omega

theorem loadLe16_lt (m : Mem) (off : Nat) : loadLe16 m off < 65536 := load16_lt .little m off

theorem le16ToCpu_load16 (e : Endian) (m : Mem) (off : Nat) : le16ToCpu e (load16 e m off) = loadLe16 m off := by
  have h0 := (m off).toNat_lt
  have h1 := (m (off + 1)).toNat_lt
  cases e <;> simp only [le16ToCpu, cpuToLe16, load16, loadLe16] <;> omega

/-- A field of a window of the memory. -/
theorem loadLe16_read (m : Mem) (off : Nat) {n k : Nat} (h : k + 2 ≤ n) :
    loadLe16 (Mem.ofList (m.read off n)) k = loadLe16 m (off + k) := by
  unfold loadLe16 Mem.ofList
  rw [getD_read m off (by omega : k < n), getD_read m off (by omega : k + 1 < n), Nat.add_assoc]

theorem load16_write (e : Endian) (m : Mem) (off x : Nat) :
    load16 e (m.write off (bytes16 e x)) off = x % 65536 := by
  have h0 : m.write off (bytes16 e x) off = (bytes16 e x).getD 0 0 :=
    write_at m (bytes16 e x) (k := 0) (by rw [length_bytes16]; decide)
  have h1 : m.write off (bytes16 e x) (off + 1) = (bytes16 e x).getD 1 0 :=
    write_at m (bytes16 e x) (k := 1) (by rw [length_bytes16]; decide)
  cases e with
  | little =>
    rw [load16, loadLe16, h0, h1]
    simp only [bytes16, List.getD_cons_zero, List.getD_cons_succ, UInt8.toNat_ofNat']
    omega
  | big =>
    rw [load16, h0, h1]
    simp only [bytes16, List.getD_cons_zero, List.getD_cons_succ, UInt8.toNat_ofNat']
    omega

theorem load16_write_of_le (e : Endian) (m : Mem) (bs : List UInt8) {off off' : Nat} (h : off + 2 ≤ off') :
    load16 e (m.write off' bs) off = load16 e m off :=
  load16_congr e (write_of_lt m bs (by omega)) (write_of_lt m bs (by omega))

theorem load16_write_of_ge (e : Endian) (m : Mem) (bs : List UInt8) {off off' : Nat} (h : off' + bs.length ≤ off) :
    load16 e (m.write off' bs) off = load16 e m off :=
  load16_congr e (write_of_le m bs (by omega)) (write_of_le m bs (by omega))

/-! ## 32-bit fields -/

theorem load32_lt (e : Endian) (m : Mem) (off : Nat) : load32 e m off < 2 ^ 32 := by
  cases e with
  | little =>
    have h0 : loadLe16 m off < 65536 := load16_lt .little m off
    have h1 : loadLe16 m (off + 2) < 65536 := load16_lt .little m (off + 2)
    simp only [load32]
    omega
  | big =>
    have h0 := load16_lt .big m off
    have h1 := load16_lt .big m (off + 2)
    simp only [load32]
    omega

theorem length_bytes32 (e : Endian) (x : Nat) : (bytes32 e x).length = 4 := by cases e <;> rfl

theorem load32_write (e : Endian) (m : Mem) (off x : Nat) : load32 e (m.write off (bytes32 e x)) off = x % 2 ^ 32 := by
  have hat : ∀ k < 4, m.write off (bytes32 e x) (off + k) = (bytes32 e x).getD k 0 := by
    intro k hk
    apply write_at
    rwa [length_bytes32]
  have h0 := hat 0 (by decide)
  have h1 := hat 1 (by decide)
  have h2 := hat 2 (by decide)
  have h3 := hat 3 (by decide)
  rw [Nat.add_zero] at h0
  cases e with
  | little =>
    rw [load32, loadLe16, loadLe16, Nat.add_assoc off 2 1, h0, h1, h2, h3]
    simp only [bytes32, bytes16, List.cons_append, List.nil_append, List.getD_cons_zero, List.getD_cons_succ,
      UInt8.toNat_ofNat']
    omega
  | big =>
    rw [load32, load16, load16, Nat.add_assoc off 2 1, h0, h1, h2, h3]
    simp only [bytes32, bytes16, List.cons_append, List.nil_append, List.getD_cons_zero, List.getD_cons_succ,
      UInt8.toNat_ofNat']
    omega

end HgicFmac.Lib
