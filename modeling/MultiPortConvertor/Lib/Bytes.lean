import Mathlib.Algebra.Group.Nat.Defs
import Mathlib.Logic.Function.Basic
import Mathlib.Tactic.SplitIfs

/-! # Byte memories

A memory gives the byte at each offset from a fixed address. `store` writes one byte, `copy` is
`memcpy` into it, `slice` lists a range of it; `be16` is a big-endian 16-bit number. -/

namespace MultiPortConvertor.Lib.Bytes

abbrev Memory := ℕ → UInt8

/-- Memory full of one byte. -/
def filled (b : UInt8) : Memory := fun _ => b

def store (m : Memory) (i : ℕ) (b : UInt8) : Memory := Function.update m i b

/-- `memcpy` of the first `n` bytes of `src` to the offset `off`. -/
def copy (m : Memory) (off : ℕ) (src : Memory) (n : ℕ) : Memory :=
  fun i => if off ≤ i ∧ i < off + n then src (i - off) else m i

/-- The bytes at the offsets from `off` to `off + n - 1`. -/
def slice (m : Memory) (off n : ℕ) : List UInt8 := (List.range n).map fun i => m (off + i)

/-- The number with high byte `hi` and low byte `lo`. -/
def be16 (hi lo : UInt8) : ℕ := (hi.toNat <<< 8) + lo.toNat

variable {m m' : Memory} {off n i : ℕ}

@[simp] theorem store_self (b : UInt8) : store m i b i = b := Function.update_self _ _ _

@[simp] theorem store_of_ne {j : ℕ} (h : j ≠ i) (b : UInt8) : store m i b j = m j :=
  Function.update_of_ne h _ _

theorem store_apply (b : UInt8) (j : ℕ) : store m i b j = if j = i then b else m j :=
  Function.update_apply _ _ _ _

theorem copy_apply (src : Memory) (j : ℕ) :
    copy m off src n j = if off ≤ j ∧ j < off + n then src (j - off) else m j := rfl

@[simp] theorem length_slice : (slice m off n).length = n := by simp [slice]

@[simp] theorem slice_zero : slice m off 0 = [] := rfl

theorem slice_succ : slice m off (n + 1) = slice m off n ++ [m (off + n)] := by
  simp [slice, List.range_succ]

theorem slice_succ_left : slice m off (n + 1) = m off :: slice m (off + 1) n := by
  simp [slice, List.range_succ_eq_map, Nat.add_assoc, Nat.add_comm 1]

theorem slice_add (a b : ℕ) : slice m off (a + b) = slice m off a ++ slice m (off + a) b := by
  simp [slice, List.range_add, Nat.add_assoc]

theorem slice_congr (h : ∀ i < n, m (off + i) = m' (off + i)) :
    slice m off n = slice m' off n :=
  List.map_congr_left fun i hi => h i (List.mem_range.mp hi)

theorem slice_eq_iff : slice m off n = slice m' off n ↔ ∀ i < n, m (off + i) = m' (off + i) := by
  simp [slice, List.map_inj_left]

theorem getElem_slice {h : i < (slice m off n).length} : (slice m off n)[i] = m (off + i) := by
  simp [slice]

theorem slice_store_of_ge {j : ℕ} (b : UInt8) (h : off + n ≤ j) :
    slice (store m j b) off n = slice m off n :=
  slice_congr fun i hi => store_of_ne (by omega) b

/-- Two memories that hold the same bytes at the start hold the same byte there. -/
theorem eq_of_slice_eq (h : slice m 0 n = slice m' 0 n) (hi : i < n) : m i = m' i := by
  simpa using slice_eq_iff.mp h i hi

theorem be16_eq (hi lo : UInt8) : be16 hi lo = hi.toNat * 256 + lo.toNat := by
  simp [be16, Nat.shiftLeft_eq]

theorem be16_inj {hi lo hi' lo' : UInt8} (h : be16 hi lo = be16 hi' lo') : hi = hi' ∧ lo = lo' := by
  have h1 := lo.toNat_lt
  have h2 := lo'.toNat_lt
  rw [be16_eq, be16_eq] at h
  exact ⟨UInt8.toNat_inj.mp (by omega), UInt8.toNat_inj.mp (by omega)⟩

/-- A number below `2 ^ 16` is read back from its two bytes. -/
theorem be16_ofNat {n : ℕ} (h : n < 65536) :
    be16 (UInt8.ofNat (n >>> 8)) (UInt8.ofNat n) = n := by
  rw [be16_eq, UInt8.toNat_ofNat', UInt8.toNat_ofNat', Nat.shiftRight_eq_div_pow]
  omega

end MultiPortConvertor.Lib.Bytes
