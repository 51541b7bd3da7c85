import MultiPortConvertor.Lib.Bytes
import Mathlib.Data.List.Count

/-! # Strings in memory

`cstr` is the string that starts at an offset: the bytes up to the first zero. `sprintf` is the C
function called with a format and nothing else: a conversion then takes an argument that was never
passed, and what the call writes from there on is the parameter `va`. -/

namespace MultiPortConvertor.Lib.CString

open MultiPortConvertor.Lib.Bytes

/-- The bytes from `off` up to the first zero, at most `n` of them. -/
def cstrFrom (m : Memory) : ℕ → ℕ → List UInt8
  | _, 0 => []
  | off, n + 1 => if m off = 0 then [] else m off :: cstrFrom m (off + 1) n

/-- The string at `off`; no string is longer than the address space. -/
def cstr (m : Memory) (off : ℕ) : List UInt8 := cstrFrom m off (2 ^ 32)

/-- The order of two strings, as `strcmp` tells it by the sign of its result. -/
def strcmp : List UInt8 → List UInt8 → Ordering
  | [], [] => .eq
  | [], _ :: _ => .lt
  | _ :: _, [] => .gt
  | a :: s, b :: t => if a < b then .lt else if b < a then .gt else strcmp s t

/-- `sprintf` with the format `fmt` and no argument. -/
def sprintf (va : List UInt8 → List UInt8) : List UInt8 → List UInt8
  | [] => []
  | [c] => if c = 0x25 then va [c] else [c]
  | c :: d :: fmt =>
    if c = 0x25 then if d = 0x25 then c :: sprintf va fmt else va (c :: d :: fmt)
    else c :: sprintf va (d :: fmt)

/-- The bytes of a text of the program. -/
def ascii (s : String) : List UInt8 := s.toList.map fun c => UInt8.ofNat c.toNat

theorem cstrFrom_eq (m : Memory) : ∀ {n k off : ℕ}, n < k → m (off + n) = 0 →
    (∀ i < n, m (off + i) ≠ 0) → cstrFrom m off k = slice m off n
  | 0, k + 1, off, _, hz, _ => by
    rw [Nat.add_zero] at hz
    simp [cstrFrom, hz]
  | n + 1, k + 1, off, hk, hz, hne => by
    have h0 : m off ≠ 0 := hne 0 (by omega)
    have ih : cstrFrom m (off + 1) k = slice m (off + 1) n := by
      refine cstrFrom_eq m (by omega) ?_ fun i hi => ?_
      · rw [Nat.add_assoc, Nat.add_comm 1]; exact hz
      · rw [Nat.add_assoc, Nat.add_comm 1]; exact hne (i + 1) (by omega)
    rw [cstrFrom, if_neg h0, ih, slice_succ_left]

variable {m m' : Memory} {off n : ℕ}

/-- **A string ends at its first zero.** -/
theorem cstr_eq (hn : n < 2 ^ 32) (hz : m (off + n) = 0) (hne : ∀ i < n, m (off + i) ≠ 0) :
    cstr m off = slice m off n :=
  cstrFrom_eq m hn hz hne

/-- The string is read off the bytes up to its end. -/
theorem cstr_congr (hn : n < 2 ^ 32) (hz : m (off + n) = 0) (hne : ∀ i < n, m (off + i) ≠ 0)
    (h : ∀ i ≤ n, m' (off + i) = m (off + i)) : cstr m' off = cstr m off := by
  have hz' : m' (off + n) = 0 := (h n (Nat.le_refl n)).trans hz
  have hne' : ∀ i < n, m' (off + i) ≠ 0 := by
    intro i hi
    rw [h i (by omega)]
    exact hne i hi
  rw [cstr_eq hn hz hne, cstr_eq hn hz' hne']
  exact slice_congr fun i hi => h i (by omega)

theorem sprintf_cons_cons (va : List UInt8 → List UInt8) (c d : UInt8) (fmt : List UInt8) :
    sprintf va (c :: d :: fmt) =
      if c = 0x25 then if d = 0x25 then c :: sprintf va fmt else va (c :: d :: fmt)
      else c :: sprintf va (d :: fmt) := rfl

/-- A format without `%` is copied. -/
theorem sprintf_plain (va : List UInt8 → List UInt8) : ∀ {s : List UInt8}, (∀ b ∈ s, b ≠ 0x25) →
    sprintf va s = s
  | [], _ => rfl
  | [b], hs => by
    have hb : b ≠ 0x25 := hs b (by simp)
    simp [sprintf, hb]
  | b :: d :: s, hs => by
    have hb : b ≠ 0x25 := hs b (by simp)
    rw [sprintf_cons_cons, if_neg hb, sprintf_plain va fun x hx => hs x (List.mem_cons_of_mem _ hx)]

theorem sprintf_of_notMem (va : List UInt8 → List UInt8) {s : List UInt8} (h : 0x25 ∉ s) :
    sprintf va s = s :=
  sprintf_plain va fun _ hb he => h (he ▸ hb)

/-- A format whose conversions write nothing is written with some bytes left out. -/
theorem sprintf_sublist : ∀ s : List UInt8, (sprintf (fun _ => []) s).Sublist s
  | [] => List.nil_sublist _
  | [c] => by
    by_cases hc : c = 0x25 <;> simp [sprintf, hc]
  | c :: d :: fmt => by
    rw [sprintf_cons_cons]
    split_ifs
    · exact ((sprintf_sublist fmt).cons d).cons_cons c
    · exact List.nil_sublist _
    · exact (sprintf_sublist (d :: fmt)).cons_cons c

/-- Each conversion takes a `%` with it. -/
theorem count_sprintf_lt : ∀ {s : List UInt8}, 0x25 ∈ s →
    (sprintf (fun _ => []) s).count 0x25 < s.count 0x25
  | [c], hs => by
    obtain rfl : c = 0x25 := (List.mem_singleton.mp hs).symm
    simp [sprintf]
  | c :: d :: fmt, hs => by
    rw [sprintf_cons_cons]
    split_ifs with hc hd
    · have hle := (sprintf_sublist fmt).count_le (0x25 : UInt8)
      rw [hc, hd, List.count_cons_self, List.count_cons_self, List.count_cons_self]
      omega
    · rw [hc, List.count_cons_self, List.count_nil]
      exact Nat.succ_pos _
    · have hmem : 0x25 ∈ d :: fmt := (List.mem_cons.mp hs).resolve_left (Ne.symm hc)
      rw [List.count_cons_of_ne hc, List.count_cons_of_ne hc]
      exact count_sprintf_lt hmem

/-- What follows a format is copied behind it, if conversions write what follows them. -/
theorem sprintf_append {s : List UInt8} (hs : ∀ b ∈ s, b ≠ 0x25) : ∀ fmt : List UInt8,
    sprintf id (fmt ++ s) = sprintf id fmt ++ s
  | [] => sprintf_plain id hs
  | [c] => by
    cases s with
    | nil => simp
    | cons b s =>
      have hb : b ≠ 0x25 := hs b (by simp)
      rw [List.singleton_append, sprintf_cons_cons, sprintf_plain id hs]
      by_cases hc : c = 0x25
      · simp [sprintf, hc, hb]
      · simp [sprintf, hc]
  | c :: d :: fmt => by
    have ih := sprintf_append hs fmt
    have ih' := sprintf_append hs (d :: fmt)
    rw [List.cons_append] at ih'
    rw [List.cons_append, List.cons_append, sprintf_cons_cons, sprintf_cons_cons]
    split_ifs
    · rw [ih, List.cons_append]
    · rfl
    · rw [ih', List.cons_append]

end MultiPortConvertor.Lib.CString
