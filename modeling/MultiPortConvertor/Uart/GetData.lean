import MultiPortConvertor.Uart.Format

/-! # The receive framer `uart_get_data`

The static variables of `uart_get_data` and the receive buffer make up the state `Framer`; a read of
the serial port gives a byte or fails. One call reads until a frame is complete, a length is too
large or a read fails; `uart_recv_tsk` calls again and again. What a run delivers is determined byte
by byte (`uartRecvTsk_cons`): a failed read only ends the call, and the next one goes on where it
stopped. -/

namespace MultiPortConvertor.Uart.GetData

open MultiPortConvertor.Lib.Bytes MultiPortConvertor.Uart.Format

/-- The static variables of `uart_get_data`, and `uart_recv_buf` (`recv_data_p` points to it). -/
structure Framer where
  proctolStart : Bool
  recvLen : ℕ
  dataLen : ℕ
  uartRecvBuf : UartCmdFormat

/-- The state at the start of the process; `behind` is what lies behind `uart_recv_buf`. -/
def Framer.init (behind : Memory) : Framer where
  proctolStart := false
  recvLen := 0
  dataLen := 0
  uartRecvBuf := fun i => if i < sizeofUartCmdFormat then 0 else behind i

/-- Between two frames. -/
def Framer.Idle (f : Framer) : Prop := f.proctolStart = false ∧ f.recvLen = 0

/-- The body of the loop of `uart_get_data` for the byte `ch`: the state after it, and what the call
returns, if it ends here. -/
def onByte (f : Framer) (ch : UInt8) : Framer × Option Bool :=
  let f := if ch = 0xC0 ∧ f.proctolStart = false then { f with proctolStart := true } else f
  if f.proctolStart = true then
    let f := { f with uartRecvBuf := store f.uartRecvBuf f.recvLen ch,
                      recvLen := (f.recvLen + 1) % 2 ^ 32 }
    if f.recvLen = 3 then
      let f := { f with dataLen := be16 (f.uartRecvBuf 1) (f.uartRecvBuf 2) + 1 }
      if f.dataLen = 0 then
        ({ f with recvLen := 0, dataLen := 0, proctolStart := false }, some true)
      else if f.dataLen > uartProcotolMaxLen then
        ({ f with recvLen := 0, dataLen := 0, proctolStart := false }, some false)
      else (f, none)
    else if f.recvLen > 3 then
      let f := { f with dataLen := (f.dataLen + (2 ^ 32 - 1)) % 2 ^ 32 }
      if f.dataLen = 0 then ({ f with recvLen := 0, proctolStart := false }, some true)
      else (f, none)
    else (f, none)
  else (f, none)

/-- How a call of `uart_get_data` ends: it is waiting in `read`, or it has returned and left some
reads for the next call. -/
inductive Call where
  | reading (f : Framer)
  | returned (r : Bool) (f : Framer) (rest : List (Option UInt8))

/-- `uart_get_data`; the list gives what the reads of the port return, `none` for a failed one. -/
def uartGetData : Framer → List (Option UInt8) → Call
  | f, [] => .reading f
  | f, none :: rest => .returned false f rest
  | f, some ch :: rest =>
    match onByte f ch with
    | (f, some r) => .returned r f rest
    | (f, none) => uartGetData f rest

theorem uartGetData_rest_lt : ∀ {f g : Framer} {es rest : List (Option UInt8)} {r : Bool},
    uartGetData f es = .returned r g rest → rest.length < es.length
  | f, g, none :: es, rest, r, h => by
    simp only [uartGetData, Call.returned.injEq] at h
    simp [h.2.2]
  | f, g, some ch :: es, rest, r, h => by
    rw [uartGetData] at h
    split at h
    · simp only [Call.returned.injEq] at h
      simp [h.2.2]
    · exact Nat.lt_succ_of_lt (uartGetData_rest_lt h)

/-- `uart_recv_tsk`: the contents of `uart_recv_buf` at each call that returned true, and the state
in the end. -/
def uartRecvTsk (f : Framer) (es : List (Option UInt8)) : List UartCmdFormat × Framer :=
  match h : uartGetData f es with
  | .reading f => ([], f)
  | .returned r f rest =>
    have := uartGetData_rest_lt h
    let later := uartRecvTsk f rest
    if r then (f.uartRecvBuf :: later.1, later.2) else later
termination_by es.length

theorem uartRecvTsk_reading {f g : Framer} {es : List (Option UInt8)}
    (h : uartGetData f es = .reading g) : uartRecvTsk f es = ([], g) := by
  rw [uartRecvTsk]
  split <;> simp_all

theorem uartRecvTsk_returned {f g : Framer} {es rest : List (Option UInt8)} {r : Bool}
    (h : uartGetData f es = .returned r g rest) :
    uartRecvTsk f es = if r then (g.uartRecvBuf :: (uartRecvTsk g rest).1, (uartRecvTsk g rest).2)
      else uartRecvTsk g rest := by
  rw [uartRecvTsk]
  split <;> simp_all

/-! ### Byte by byte -/

@[simp] theorem uartRecvTsk_nil (f : Framer) : uartRecvTsk f [] = ([], f) :=
  uartRecvTsk_reading rfl

@[simp] theorem uartRecvTsk_none (f : Framer) (es : List (Option UInt8)) :
    uartRecvTsk f (none :: es) = uartRecvTsk f es := by
  rw [uartRecvTsk_returned (r := false) rfl]; simp

/-- What a byte adds to the run. -/
theorem uartRecvTsk_cons (f : Framer) (ch : UInt8) (es : List (Option UInt8)) :
    uartRecvTsk f (some ch :: es) =
      let g := (onByte f ch).1
      let later := uartRecvTsk g es
      if (onByte f ch).2 = some true then (g.uartRecvBuf :: later.1, later.2) else later := by
  rcases hb : onByte f ch with ⟨g, _ | r⟩
  · -- the call goes on: it is the call from the next state
    have hg : uartGetData f (some ch :: es) = uartGetData g es := by rw [uartGetData, hb]
    simp only [reduceCtorEq, if_false]
    cases hc : uartGetData g es with
    | reading f' => rw [uartRecvTsk_reading hc, uartRecvTsk_reading (hg.trans hc)]
    | returned r f' rest => rw [uartRecvTsk_returned hc, uartRecvTsk_returned (hg.trans hc)]
  · have hg : uartGetData f (some ch :: es) = .returned r g es := by rw [uartGetData, hb]
    rw [uartRecvTsk_returned hg]
    cases r <;> simp

/-- A run over some reads and then others. -/
theorem uartRecvTsk_append : ∀ (f : Framer) (es es' : List (Option UInt8)),
    uartRecvTsk f (es ++ es') =
      let a := uartRecvTsk f es
      let b := uartRecvTsk a.2 es'
      (a.1 ++ b.1, b.2)
  | f, [], es' => by simp
  | f, none :: es, es' => by
    rw [List.cons_append, uartRecvTsk_none, uartRecvTsk_none, uartRecvTsk_append f es es']
  | f, some ch :: es, es' => by
    rw [List.cons_append, uartRecvTsk_cons, uartRecvTsk_cons]
    dsimp only
    rw [uartRecvTsk_append (onByte f ch).1 es es']
    split_ifs <;> rfl

end MultiPortConvertor.Uart.GetData
