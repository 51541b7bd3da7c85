import MultiPortConvertor.Uart.Grammar

/-! # Where a frame is stored and read

`uart_get_data` compares `recv_len` with nothing. What bounds it is the length in the header,
checked when the third byte comes: every byte of a frame is stored behind those before it, the last
one at 131 at most (`receive_bounds`). `procotol_check` counts the length again; what it reads are
bytes that were stored for this frame. -/

namespace MultiPortConvertor.Uart.ReceiveBounds

open MultiPortConvertor.Lib.Bytes MultiPortConvertor.Uart.Format MultiPortConvertor.Uart.GetData
open MultiPortConvertor.Uart.Grammar

/-- `recv_data_p[recv_len++] = ch`, if `uart_get_data` comes to it: the index and the byte. -/
def storeOf (f : Framer) (ch : UInt8) : List (ℕ × UInt8) :=
  if ch = 0xC0 ∨ f.proctolStart = true then [(f.recvLen, ch)] else []

/-- A frame delivered, and the stores made for it. -/
structure Delivered where
  buf : UartCmdFormat
  stores : List (ℕ × UInt8)

/-- The stores of a run, and the frames it delivers; `stores` are those since `uart_get_data` last
gave up or completed a frame. -/
def record : Framer → List (ℕ × UInt8) → List (Option UInt8) → List (ℕ × UInt8) × List Delivered
  | _, _, [] => ([], [])
  | f, stores, none :: es => record f stores es
  | f, stores, some ch :: es =>
    let stores := stores ++ storeOf f ch
    match onByte f ch with
    | (g, some true) =>
      let later := record g [] es
      (storeOf f ch ++ later.1, ⟨g.uartRecvBuf, stores⟩ :: later.2)
    | (g, some false) =>
      let later := record g [] es
      (storeOf f ch ++ later.1, later.2)
    | (g, none) =>
      let later := record g stores es
      (storeOf f ch ++ later.1, later.2)

/-- The offsets that `check_sum_cal` reads, from `p` on. -/
def checkSumReads (len : ℕ) : List ℕ := List.range (len % 2 ^ 16)

/-- The offsets that `procotol_check` reads: the length, and if it is not too small the range of the
sum and the checksum. -/
def checkReads (c : UartCmdFormat) : List ℕ :=
  [1, 2] ++ if c.len < 4 then [] else (checkSumReads c.len).map (3 + ·) ++ [7 + (c.len - 4)]

/-! ### The record is that of the run -/

/-- The stores make up what happens to the buffer. -/
theorem onByte_stores (f : Framer) (ch : UInt8) : (onByte f ch).1.uartRecvBuf =
    (storeOf f ch).foldl (fun m w => store m w.1 w.2) f.uartRecvBuf := by
  rw [onByte_buf, storeOf]
  split_ifs
  · rfl
  · rfl

/-- **The record is that of the run**: the frames delivered, and a buffer made by the stores. -/
theorem record_eq : ∀ (es : List (Option UInt8)) (f : Framer) (stores : List (ℕ × UInt8)),
    (record f stores es).2.map Delivered.buf = (uartRecvTsk f es).1 ∧
      (record f stores es).1.foldl (fun m w => store m w.1 w.2) f.uartRecvBuf =
        (uartRecvTsk f es).2.uartRecvBuf
  | [], f, _ => by
    rw [uartRecvTsk_nil]
    exact ⟨rfl, rfl⟩
  | none :: es, f, stores => by
    rw [uartRecvTsk_none]
    exact record_eq es f stores
  | some ch :: es, f, stores => by
    have hstores := onByte_stores f ch
    rw [uartRecvTsk_cons, record]
    rcases hb : onByte f ch with ⟨g, _ | _ | _⟩
    · rw [hb] at hstores
      obtain ⟨hbufs, hmem⟩ := record_eq es g (stores ++ storeOf f ch)
      exact ⟨hbufs, by rw [List.foldl_append, ← hstores]; exact hmem⟩
    · rw [hb] at hstores
      obtain ⟨hbufs, hmem⟩ := record_eq es g []
      exact ⟨hbufs, by rw [List.foldl_append, ← hstores]; exact hmem⟩
    · rw [hb] at hstores
      obtain ⟨hbufs, hmem⟩ := record_eq es g []
      exact ⟨congrArg (g.uartRecvBuf :: ·) hbufs, by rw [List.foldl_append, ← hstores]; exact hmem⟩

/-- `procotol_check` depends on nothing else. -/
theorem procotolCheck_reads {c c' : UartCmdFormat} (h : ∀ i ∈ checkReads c, c' i = c i) :
    procotolCheck c' = procotolCheck c := by
  have hl : c'.len = c.len := by
    unfold UartCmdFormat.len UartCmdFormat.lengthMsb UartCmdFormat.lengthLsb
    rw [h 1 (by simp [checkReads]), h 2 (by simp [checkReads])]
  unfold procotolCheck
  rw [hl]
  split_ifs with h4
  · rfl
  · have hmem : ∀ i, i ∈ (checkSumReads c.len).map (3 + ·) ++ [7 + (c.len - 4)] → c' i = c i :=
      fun i hi => h i (by rw [checkReads, if_neg h4]; exact List.mem_append_right _ hi)
    have hdata : c'.data (c.len - 4) = c.data (c.len - 4) := hmem _ (by simp)
    have hsum : checkSumCal c'.fromStaParam c.len = checkSumCal c.fromStaParam c.len := by
      refine checkSumCal_congr fun i hi => hmem _ ?_
      have hlt := len_lt c
      simp only [checkSumReads, List.mem_append, List.mem_map, List.mem_range]
      exact .inl ⟨i, by omega, rfl⟩
    rw [hdata, hsum]

/-! ### The bounds -/

/-- The stores that put the bytes `p` at the start of the buffer, in order. -/
def storesOf (p : List UInt8) : List (ℕ × UInt8) := p.zipIdx.map fun b => (b.2, b.1)

theorem storesOf_concat (p : List UInt8) (ch : UInt8) :
    storesOf (p ++ [ch]) = storesOf p ++ [(p.length, ch)] := by
  simp [storesOf, List.zipIdx_append]

theorem map_fst_storesOf (p : List UInt8) : (storesOf p).map Prod.fst = List.range p.length := by
  rw [storesOf, List.map_map, List.range_eq_range']
  exact List.zipIdx_map_snd 0 p

/-- `checkReads` stays inside the frame. -/
theorem lt_of_mem_checkReads {c : UartCmdFormat} {i : ℕ} (hi : i ∈ checkReads c) :
    i < c.getresplen := by
  have hg : c.getresplen = c.len + 4 := rfl
  have hmod := Nat.mod_le c.len (2 ^ 16)
  unfold checkReads checkSumReads at hi
  split_ifs at hi
  · simp at hi
    omega
  · simp at hi
    omega

/-- A byte of a frame is among its stores. -/
theorem mem_storesOf {c : UartCmdFormat} {i : ℕ} (hi : i < c.getresplen) :
    (i, c i) ∈ storesOf c.bytes := by
  refine List.mem_map.mpr ⟨(c i, i), ?_, rfl⟩
  rw [List.mem_zipIdx_iff_getElem?]
  simp [UartCmdFormat.bytes, slice, hi]

/-- A byte that goes into the unfinished frame is stored behind it. -/
theorem stores_advance {f : Framer} {p : List UInt8} (hf : Holds f p) (ch : UInt8) :
    storesOf p ++ storeOf f ch = if p = [] ∧ ch ≠ 0xC0 then [] else storesOf (p ++ [ch]) := by
  rw [storesOf_concat, storeOf, hf.start, hf.recvLen]
  by_cases hp : p = []
  · by_cases hch : ch = 0xC0
    · simp [hp, hch]
    · simp [hp, hch, storesOf]
  · simp [hp]

/-- A byte is skipped or kept if the frame goes on, and nothing is kept if it ends. -/
theorem advance_fst (p : List UInt8) (ch : UInt8) :
    ((advance p ch).2 = none → (advance p ch).1 = if p = [] ∧ ch ≠ 0xC0 then [] else p ++ [ch]) ∧
      ((advance p ch).2 ≠ none → (advance p ch).1 = [] ∧ ¬(p = [] ∧ ch ≠ 0xC0)) := by
  unfold advance
  split_ifs with h
  · simp
  · simp [h]
  · simp [h]
  · simp

theorem lt_of_mem_storeOf {f : Framer} {p : List UInt8} (hf : Holds f p) (ch : UInt8) :
    ∀ w ∈ storeOf f ch, w.1 < 132 := by
  have hlt := hf.unfinished.length_lt
  intro w hw
  unfold storeOf at hw
  split_ifs at hw
  · obtain rfl := List.mem_singleton.mp hw
    rw [hf.recvLen]
    exact hlt
  · cases hw

/-- **Every store is inside the buffer, and the stores of a frame are its bytes**, one after
another. -/
theorem record_bounds : ∀ (es : List (Option UInt8)) {f : Framer} {p : List UInt8}, Holds f p →
    (∀ w ∈ (record f (storesOf p) es).1, w.1 < 132) ∧
      ∀ d ∈ (record f (storesOf p) es).2, d.stores = storesOf d.buf.bytes
  | [], f, p, _ => by simp [record]
  | none :: es, f, p, hf => record_bounds es hf
  | some ch :: es, f, p, hf => by
    obtain ⟨hr, hg, -⟩ := onByte_advance hf ch
    have hlt := lt_of_mem_storeOf hf ch
    have hstores := stores_advance hf ch
    obtain ⟨hon, hend⟩ := advance_fst p ch
    rw [← hr] at hon hend
    rw [record]
    rcases hb : onByte f ch with ⟨g, _ | _ | _⟩
    · -- the frame goes on
      have hp := hon (by rw [hb])
      have hnext : storesOf p ++ storeOf f ch = storesOf (advance p ch).1 := by
        rw [hstores, hp]
        split_ifs
        · rfl
        · rfl
      rw [hb] at hg
      obtain ⟨hbounds, hdel⟩ := record_bounds es hg
      dsimp only
      rw [hnext]
      exact ⟨List.forall_mem_append.mpr ⟨hlt, hbounds⟩, hdel⟩
    · -- the length is too large
      obtain ⟨hnil, -⟩ := hend (by simp [hb])
      rw [hb, hnil] at hg
      obtain ⟨hbounds, hdel⟩ := record_bounds es hg
      exact ⟨List.forall_mem_append.mpr ⟨hlt, hbounds⟩, hdel⟩
    · -- the frame is complete
      obtain ⟨hnil, hkept⟩ := hend (by simp [hb])
      have hbytes := bytes_of_advance hf (by rw [← hr, hb])
      rw [hb] at hbytes
      rw [hb, hnil] at hg
      obtain ⟨hbounds, hdel⟩ := record_bounds es hg
      refine ⟨List.forall_mem_append.mpr ⟨hlt, hbounds⟩, List.forall_mem_cons.mpr ⟨?_, hdel⟩⟩
      dsimp only
      rw [hstores, if_neg hkept]
      exact congrArg storesOf hbytes.symm

/-- **Receive bounds.** For every stream and every placement of failed reads, a byte is stored
inside `uart_recv_buf`, and whatever `procotol_check` reads of a frame delivered is inside it too,
and was stored for this frame, with the value read. -/
theorem receive_bounds (behind : Memory) (es : List (Option UInt8)) :
    (∀ w ∈ (record (Framer.init behind) [] es).1, w.1 < sizeofUartCmdFormat) ∧
      (record (Framer.init behind) [] es).2.map Delivered.buf =
        (uartRecvTsk (Framer.init behind) es).1 ∧
      ∀ d ∈ (record (Framer.init behind) [] es).2, d.stores.map Prod.fst =
      List.range d.buf.getresplen ∧
        ∀ i ∈ checkReads d.buf, i < sizeofUartCmdFormat ∧ (i, d.buf i) ∈ d.stores := by
  obtain ⟨hbounds, hdel⟩ := record_bounds es (holds_init behind)
  have hbufs := (record_eq es (Framer.init behind) []).1
  refine ⟨fun w hw => ?_, hbufs, fun d hd => ?_⟩
  · have hlt := hbounds w hw
    exact Nat.lt_trans hlt (by decide)
  · have hstores : d.stores = storesOf d.buf.bytes := hdel d hd
    have hmem : d.buf ∈ (uartRecvTsk (Framer.init behind) es).1 := by
      rw [← hbufs]
      exact List.mem_map_of_mem hd
    have hcomplete : Complete d.buf.bytes := complete_of_mem hmem
    have hle := hcomplete.lenOf_le
    rw [lenOf_bytes] at hle
    refine ⟨?_, fun i hi => ?_⟩
    · rw [hstores, map_fst_storesOf]
      simp [UartCmdFormat.bytes]
    · have hlt := lt_of_mem_checkReads hi
      have hg : d.buf.getresplen = d.buf.len + 4 := rfl
      have hsize : sizeofUartCmdFormat = 136 := rfl
      exact ⟨by omega, by rw [hstores]; exact mem_storesOf hlt⟩

end MultiPortConvertor.Uart.ReceiveBounds
