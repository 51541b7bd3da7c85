import MultiPortConvertor.Lib.Bytes

/-! # The UART frame

The frame of `uart_communicat.h` and the checks of `uart_protocol.c` on it. A `uart_cmd_format_t`
has only byte fields, so it lies in memory without gaps: the seven header bytes `head`,
`length_msb`, `length_lsb`, `sta_param`, `sn`, `pdt_type`, `cmd_id`, then `data`. It is given by the
memory from its address on; the bytes from offset `sizeof` on are whatever lies behind it. -/

namespace MultiPortConvertor.Uart.Format

open MultiPortConvertor.Lib.Bytes

/-- `UART_PROCOTOL_MAX_LEN`. -/
def uartProcotolMaxLen : ℕ := 128 + 1

/-- `sizeof(uart_cmd_format_t)`. -/
def sizeofUartCmdFormat : ℕ := 7 + uartProcotolMaxLen

/-- `uart_cmd_format_t`. -/
abbrev UartCmdFormat := Memory

namespace UartCmdFormat

variable (c : UartCmdFormat)

def head : UInt8 := c 0
def lengthMsb : UInt8 := c 1
def lengthLsb : UInt8 := c 2
def staParam : UInt8 := c 3
def sn : UInt8 := c 4
def pdtType : UInt8 := c 5
def cmdId : UInt8 := c 6

/-- `data[i]`. -/
def data (i : ℕ) : UInt8 := c (7 + i)

/-- The bytes from `&header.sta_param` on. -/
def fromStaParam : Memory := fun i => c (3 + i)

/-- The length field: the number of bytes from `sta_param` to the last data byte. -/
def len : ℕ := be16 c.lengthMsb c.lengthLsb

/-- `getresplen()`: the bytes of the whole frame. -/
def getresplen : ℕ := c.len + 4

/-- The bytes of the frame. -/
def bytes : List UInt8 := slice c 0 c.getresplen

end UartCmdFormat

/-- `check_sum_cal`: `tmp` is a `__u32`, `len` a `__u16`. -/
def checkSumCal (p : Memory) (len : ℕ) : UInt8 :=
  UInt8.ofNat ((slice p 0 (len % 2 ^ 16)).foldl (fun tmp b => (tmp + b.toNat) % 2 ^ 32) 0)

def procotolCheck (c : UartCmdFormat) : Bool :=
  if c.len < 4 then false
  else c.data (c.len - 4) == checkSumCal c.fromStaParam c.len

/-- The checksum looks at no byte behind its range. -/
theorem checkSumCal_congr {p p' : Memory} {len : ℕ} (h : ∀ i < len, p i = p' i) :
    checkSumCal p len = checkSumCal p' len := by
  have hs : slice p 0 (len % 2 ^ 16) = slice p' 0 (len % 2 ^ 16) :=
    slice_congr fun i hi => by
      rw [Nat.zero_add]; exact h i (Nat.lt_of_lt_of_le hi (Nat.mod_le _ _))
  unfold checkSumCal
  rw [hs]

/-- The sum of some bytes. -/
def byteSum : List UInt8 → ℕ
  | [] => 0
  | b :: bs => b.toNat + byteSum bs

theorem byteSum_concat (bs : List UInt8) (b : UInt8) :
    byteSum (bs ++ [b]) = byteSum bs + b.toNat := by
  induction bs with
  | nil => simp [byteSum]
  | cons a bs ih => rw [List.cons_append, byteSum, byteSum, ih, Nat.add_assoc]

/-- The checksum is the sum modulo 256; the overflow of `tmp` does not show. -/
theorem checkSumCal_eq (p : Memory) {len : ℕ} (h : len < 2 ^ 16) :
    checkSumCal p len = UInt8.ofNat (byteSum (slice p 0 len)) := by
  have hfold : ∀ (bs : List UInt8) (t u : ℕ), t % 256 = u % 256 →
      bs.foldl (fun tmp b => (tmp + b.toNat) % 2 ^ 32) t % 256 = (u + byteSum bs) % 256 := by
    intro bs
    induction bs with
    | nil => intro t u h; simpa [byteSum] using h
    | cons b bs ih =>
      intro t u h
      rw [List.foldl_cons, ih _ (u + b.toNat) (by omega), byteSum, Nat.add_assoc]
  have hs := hfold (slice p 0 len) 0 0 rfl
  unfold checkSumCal
  rw [Nat.mod_eq_of_lt h]
  refine UInt8.toNat_inj.mp ?_
  rw [UInt8.toNat_ofNat', UInt8.toNat_ofNat']
  omega

/-- One byte changed changes the sum by as much. -/
theorem byteSum_slice_update {p p' : Memory} {i : ℕ} (h : ∀ j, j ≠ i → p' j = p j) : ∀ {n : ℕ},
    i < n → byteSum (slice p' 0 n) + (p i).toNat = byteSum (slice p 0 n) + (p' i).toNat
  | n + 1, hi => by
    rw [slice_succ, slice_succ, byteSum_concat, byteSum_concat, Nat.zero_add]
    rcases Nat.lt_or_eq_of_le (Nat.le_of_lt_succ hi) with hlt | rfl
    · have ih := byteSum_slice_update h hlt
      rw [h n (by omega)]
      omega
    · have hs : slice p' 0 i = slice p 0 i := slice_congr fun j hj => h _ (by omega)
      rw [hs]
      omega

/-- **The checksum detects every change of one byte.** -/
theorem checkSumCal_update {p p' : Memory} {i len : ℕ} (hlen : len < 2 ^ 16) (hi : i < len)
    (h : ∀ j, j ≠ i → p' j = p j) (hne : p' i ≠ p i) : checkSumCal p' len ≠ checkSumCal p len := by
  intro he
  rw [checkSumCal_eq p' hlen, checkSumCal_eq p hlen, ← UInt8.toNat_inj, UInt8.toNat_ofNat',
    UInt8.toNat_ofNat'] at he
  have hsum := byteSum_slice_update h hi
  have h1 := (p i).toNat_lt
  have h2 := (p' i).toNat_lt
  exact hne (UInt8.toNat_inj.mp (by omega))

section

variable {c c' : UartCmdFormat}

theorem len_lt (c : UartCmdFormat) : c.len < 2 ^ 16 := by
  have h1 := c.lengthMsb.toNat_lt
  have h2 := c.lengthLsb.toNat_lt
  unfold UartCmdFormat.len
  rw [be16_eq]
  omega

theorem procotolCheck_iff : procotolCheck c = true ↔
    4 ≤ c.len ∧ c.data (c.len - 4) = checkSumCal c.fromStaParam c.len := by
  unfold procotolCheck
  split_ifs with h
  · simp; omega
  · simp; omega

/-- **An accepted frame with one byte changed**, from `sta_param` to the checksum, is not accepted.
-/
theorem procotolCheck_changed (hc : procotolCheck c = true) {j : ℕ} (h3 : 3 ≤ j)
    (hj : j < c.getresplen) (heq : ∀ i, i ≠ j → c' i = c i) (hne : c' j ≠ c j) :
    procotolCheck c' = false := by
  obtain ⟨h4, hcheck⟩ := procotolCheck_iff.mp hc
  have hl : c'.len = c.len := by
    unfold UartCmdFormat.len UartCmdFormat.lengthMsb UartCmdFormat.lengthLsb
    rw [heq 1 (by omega), heq 2 (by omega)]
  rw [Bool.eq_false_iff, ne_eq, procotolCheck_iff, hl]
  rintro ⟨-, hcheck'⟩
  unfold UartCmdFormat.data at hcheck hcheck'
  have hg : c.getresplen = c.len + 4 := rfl
  obtain ⟨i, rfl⟩ : ∃ i, j = 3 + i := ⟨j - 3, by omega⟩
  rcases Nat.lt_or_ge i c.len with hi | hi
  · -- the change is inside the range of the sum
    have hupdate : checkSumCal c'.fromStaParam c.len ≠ checkSumCal c.fromStaParam c.len :=
      checkSumCal_update (len_lt c) hi (fun k hk => heq _ (by omega)) hne
    refine hupdate ?_
    rw [← hcheck, ← hcheck', heq _ (by omega)]
  · -- the change is the checksum itself
    have he : 7 + (c.len - 4) = 3 + i := by omega
    have hsum : checkSumCal c'.fromStaParam c.len = checkSumCal c.fromStaParam c.len :=
      checkSumCal_congr fun k hk => heq _ (by omega)
    rw [hsum, ← hcheck, he] at hcheck'
    exact hne hcheck'

/-- Two buffers that start with the same frame of length `n ≥ 3` have the same length field. -/
theorem len_congr {n : ℕ} (hn : 3 ≤ n) (h : slice c 0 n = slice c' 0 n) : c.len = c'.len := by
  unfold UartCmdFormat.len UartCmdFormat.lengthMsb UartCmdFormat.lengthLsb
  rw [eq_of_slice_eq h (i := 1) (by omega), eq_of_slice_eq h (i := 2) (by omega)]

/-- **The check reads the frame only**: it gives the same verdict on buffers with the same frame. -/
theorem procotolCheck_congr (h : slice c 0 c.getresplen = slice c' 0 c.getresplen) :
    procotolCheck c = procotolCheck c' := by
  have hl : c.len = c'.len := len_congr (by simp [UartCmdFormat.getresplen]) h
  unfold procotolCheck
  rw [← hl]
  split_ifs with h4
  · rfl
  · have hg : c.getresplen = c.len + 4 := rfl
    have hs : checkSumCal c.fromStaParam c.len = checkSumCal c'.fromStaParam c.len :=
      checkSumCal_congr fun i hi => eq_of_slice_eq (i := 3 + i) h (by omega)
    have hd : c.data (c.len - 4) = c'.data (c.len - 4) :=
      eq_of_slice_eq (i := 7 + (c.len - 4)) h (by omega)
    rw [hs, hd]

end

end MultiPortConvertor.Uart.Format
