import MultiPortConvertor.Uart.Release

/-! # Short writes

When `write` takes less than the whole frame, `uart_send_tsk` goes on at `&(Data_OutMbx->cmd) +
nhas_send`. The pointer is one to a frame, so it moves by whole frames: every byte after the first
short write comes from behind the frame (`shortWrites_iff`). `net_send_tsk` has the same loop over a
pointer to bytes. -/

namespace MultiPortConvertor.Uart.ShortWrites

open MultiPortConvertor.Lib.Bytes MultiPortConvertor.Lib.Outcomes MultiPortConvertor.Lib.Runs
open MultiPortConvertor.Uart.Format MultiPortConvertor.Uart.Dispose MultiPortConvertor.Uart.Transmit
open MultiPortConvertor.Uart.Release

/-- The offsets from `&(Data_OutMbx->cmd)` that a call of `write` takes `n` bytes from. -/
def offsets (nhasSend n : ℕ) : List ℕ := (List.range n).map (sizeofUartCmdFormat * nhasSend + ·)

/-- The offsets of the bytes accepted in the loop, where `write` returns `ns`. -/
def accepted : ℕ → List ℕ → List ℕ
  | _, [] => []
  | nhasSend, n :: ns => offsets nhasSend n ++ accepted (nhasSend + n) ns

/-- What is accepted altogether. -/
def total : List ℕ → ℕ
  | [] => 0
  | n :: ns => n + total ns

/-- The bytes that reach the serial port. -/
def portBytes : Event → List UInt8
  | .wrote bytes => bytes
  | _ => []

/-- The loop of `uart_send_tsk`, where `write` returns `ns`: the state, and what reaches the port.
-/
def sendLoop : Tx → List ℕ → Outcome (Tx × List UInt8)
  | s, [] => .next (s, [])
  | s, n :: ns => do
    let (s, es) ← s.step (.write n)
    let (s, out) ← sendLoop s ns
    return (s, es.flatMap portBytes ++ out)

section

variable {s : Tx} {msg : Message}

theorem written_eq (s : Tx) (msg : Message) (nhasSend n : ℕ) :
    s.written msg nhasSend n = (offsets nhasSend n).map (s.mem msg.p).cmd := by
  unfold Tx.written offsets slice
  rw [List.map_map]
  rfl

/-- A write that takes something. -/
theorem step_write {nhasSend n : ℕ} (hs : s.sendTsk = .loop msg nhasSend) (hpos : 0 < n)
    (hle : nhasSend + n ≤ msg.dataLen) :
    s.step (.write n) = .next ({ s with sendTsk := .loop msg (nhasSend + n) },
      [.wrote ((offsets nhasSend n).map (s.mem msg.p).cmd)]) := by
  have hloop : s.sendTsk = .write msg nhasSend := by
    rw [hs, SendTsk.loop, if_pos (by omega)]
  have hn : ¬ (n : ℤ) ≤ 0 := by omega
  simp only [Tx.step, hloop, sendWrite, Int.toNat_natCast]
  rw [if_neg hn, if_pos hle, written_eq]

/-- **The loop**, from any point of it. -/
theorem sendLoop_eq : ∀ {ns : List ℕ} {s : Tx} {nhasSend : ℕ}, s.sendTsk = .loop msg nhasSend →
    (∀ n ∈ ns, 0 < n) → nhasSend + total ns ≤ msg.dataLen →
      sendLoop s ns = .next ({ s with sendTsk := .loop msg (nhasSend + total ns) },
        (accepted nhasSend ns).map (s.mem msg.p).cmd)
  | [], s, nhasSend, hs, _, _ => by
    obtain ⟨heap, mem, sn, mailbox, sendTsk, pollTsk⟩ := s
    obtain rfl : sendTsk = .loop msg nhasSend := hs
    rfl
  | n :: ns, s, nhasSend, hs, hpos, hle => by
    obtain ⟨hn, hns⟩ := List.forall_mem_cons.mp hpos
    rw [total, ← Nat.add_assoc] at hle ⊢
    have hstep := step_write hs hn (by omega)
    have hrest := sendLoop_eq (s := { s with sendTsk := .loop msg (nhasSend + n) }) rfl hns hle
    rw [sendLoop, hstep]
    simp only [Outcome.next_bind, hrest, Outcome.pure_eq, accepted, List.map_append]
    simp [portBytes]

end

/-- Once something has been accepted, nothing comes from inside the frame. -/
theorem le_of_mem_accepted : ∀ {ns : List ℕ} {nhasSend i : ℕ}, i ∈ accepted nhasSend ns →
    sizeofUartCmdFormat * nhasSend ≤ i
  | n :: ns, nhasSend, i, hi => by
    rcases List.mem_append.mp hi with hi | hi
    · obtain ⟨j, -, rfl⟩ := List.mem_map.mp hi
      exact Nat.le_add_right _ j
    · have hle := le_of_mem_accepted hi
      rw [Nat.mul_add] at hle
      omega

/-- **The bytes accepted are those of the frame, in order**, exactly if the first write takes them
all. -/
theorem accepted_eq_range {ns : List ℕ} (hpos : ∀ n ∈ ns, 0 < n) :
    accepted 0 ns = List.range (total ns) ↔ ns.length ≤ 1 := by
  match ns with
  | [] => simp [accepted, total]
  | [n] => simp [accepted, total, offsets]
  | n :: m :: ns =>
    refine iff_of_false (fun h => ?_) (by simp)
    have hn : 0 < n := hpos n (by simp)
    have hm : 0 < m := hpos m (by simp)
    have hlt : n < total (n :: m :: ns) := by
      simp only [total]
      omega
    have hmem : n ∈ accepted 0 (n :: m :: ns) := by
      rw [h]
      exact List.mem_range.mpr hlt
    have hsize : sizeofUartCmdFormat = 136 := rfl
    rcases List.mem_append.mp hmem with hmem | hmem
    · obtain ⟨j, hj, he⟩ := List.mem_map.mp hmem
      have hjn := List.mem_range.mp hj
      rw [hsize] at he
      omega
    · have hle := le_of_mem_accepted hmem
      rw [hsize] at hle
      omega

/-- **When nothing is lost.** However `write` divides a frame, the loop ends, what reaches the port
are the bytes at the offsets `accepted`, and these are the bytes of the frame from its start, each
once and in order, exactly if the first write takes them all. -/
theorem shortWrites_iff {s : Tx} {msg : Message} (hs : s.sendTsk = .loop msg 0) (ns : List ℕ)
    (hpos : ∀ n ∈ ns, 0 < n) (htotal : total ns = msg.dataLen) :
    sendLoop s ns = .next ({ s with sendTsk := .test msg }, (accepted 0 ns).map (s.mem msg.p).cmd) ∧
      (accepted 0 ns = List.range msg.dataLen ↔ ns.length ≤ 1) := by
  have hloop := sendLoop_eq hs hpos (by omega)
  have hdone : SendTsk.loop msg (0 + total ns) = .test msg := by
    rw [SendTsk.loop, if_neg (by omega)]
  rw [hdone] at hloop
  refine ⟨hloop, ?_⟩
  rw [← htotal]
  exact accepted_eq_range hpos

/-- A notification is posted and taken. -/
def takenUp : List Action := [.dispose (hidInsertNtf 1), .pollLock, .pollEntry, .pollUnlock, .take]

/-- The state then. -/
def txTaken : Tx := (exec next txInit takenUp).get (by decide +kernel)

/-- The theorem applied to its nine bytes written at once. -/
theorem shortWrites_whole : accepted 0 [9] = List.range 9 :=
  ((shortWrites_iff (show txTaken.sendTsk = .loop ⟨0, 9⟩ 0 by decide +kernel) [9]
    (by simp) rfl).2).mpr (Nat.le_refl 1)

/-- Written in two parts, five bytes from behind the frame take the place of its last five. -/
theorem twoParts_lost : txTaken.sendTsk = .loop ⟨0, 9⟩ 0 ∧ total [4, 5] = 9 ∧
    accepted 0 [4, 5] = [0, 1, 2, 3, 544, 545, 546, 547, 548] ∧ accepted 0 [4, 5] ≠ List.range 9 ∧
    (sendLoop txTaken [4, 5]).toOption.map Prod.snd = some [0xD0, 0, 5, 0, 0, 0, 0, 0, 0] ∧
    slice (txTaken.mem 0).cmd 0 9 = [0xD0, 0, 5, 0, 0, 0xA1, 0x20, 1, 0xC2] := by
  decide +kernel

end MultiPortConvertor.Uart.ShortWrites
