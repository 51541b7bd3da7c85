import MultiPortConvertor.Lib.Runs
import MultiPortConvertor.Uart.TransmitQueues

/-! # Calls of `uart_protocol_dispose` on several threads

The statements of `uart_protocol_dispose` as separate steps, so that calls on different threads mix.
They share the pool, the send list, `uart_send_sn`, and the pointer `Respdata`, which is `static`
inside the function; a call writes its frame through this pointer. The entries that the other tasks
have done with are unlinked and given back. A call that runs alone does what the one step of the
queues does (`exec_wholeCall_dispose`). -/

namespace MultiPortConvertor.Uart.Interleaving

open MultiPortConvertor.Lib.Bytes MultiPortConvertor.Lib.Outcomes MultiPortConvertor.Lib.Runs
open MultiPortConvertor.Uart.Format MultiPortConvertor.Uart.Dispose
open MultiPortConvertor.Uart.Transmit MultiPortConvertor.Uart.TransmitQueues

/-- The statements of `uart_protocol_dispose`, in order; `link` sets the owner and inserts the entry
under the lock. -/
inductive Stmt where
  | produce
  | setBuf
  | setRespdata
  | head
  | lengthMsb
  | lengthLsb
  | staParam
  | sn
  | countSn
  | pdtType
  | cmdId
  | data
  | check
  | pollType
  | link
  deriving DecidableEq

namespace Stmt

/-- The next statement; after the last one the call returns. -/
def succ : Stmt → Stmt
  | produce => setBuf
  | setBuf => setRespdata
  | setRespdata => head
  | head => lengthMsb
  | lengthMsb => lengthLsb
  | lengthLsb => staParam
  | staParam => sn
  | sn => countSn
  | countSn => pdtType
  | pdtType => cmdId
  | cmdId => data
  | data => check
  | check => pollType
  | pollType => link
  | link => link

/-- The local `protocol_len`. -/
def protocolLen (info : UartSendInfo) : ℕ := (info.len + 4) % 2 ^ 32

/-- What a statement writes to the frame at `Respdata`. -/
def write (info : UartSendInfo) (uartSendSn : UInt8) : Stmt → UartCmdFormat → UartCmdFormat
  | head, c => store c 0 0xD0
  | lengthMsb, c => store c 1 (UInt8.ofNat (protocolLen info >>> 8))
  | lengthLsb, c => store c 2 (UInt8.ofNat (protocolLen info))
  | staParam, c => store c 3 0
  | sn, c => store c 4 uartSendSn
  | pdtType, c => store c 5 info.pdtType
  | cmdId, c => store c 6 info.cmdId
  | data, c => disposeData info c
  | check, c =>
    store c (7 + info.len) (checkSumCal (UartCmdFormat.fromStaParam c) (protocolLen info))
  | _, c => c

/-- The call is between its setting of `Respdata` and its checksum. -/
def inside : Stmt → Bool
  | head | lengthMsb | lengthLsb | staParam | sn | countSn | pdtType | cmdId | data | check => true
  | _ => false

end Stmt

/-- A call in progress, before the statement `stmt`. -/
structure Call where
  info : UartSendInfo
  sendpdata : Option ℕ
  stmt : Stmt

/-- What the calls share, and the call that each thread is in, for any type of threads. -/
structure Threads (τ : Type) where
  free : List ℕ
  list : List ℕ
  respdata : Option ℕ
  uartSendSn : UInt8
  mem : ℕ → UartSendFormat
  calls : τ → Option Call

/-- For the record: a buffer taken for a `uart_send_info_t`, and a value of `uart_send_sn` read for
it. -/
inductive Note where
  | took (b : ℕ) (info : UartSendInfo)
  | read (b : ℕ) (sn : UInt8)

/-- A thread calls `uart_protocol_dispose`, runs the next statement of its call, or another task
unlinks an entry and gives its buffer back. -/
inductive Act (τ : Type) where
  | call (t : τ) (info : UartSendInfo)
  | run (t : τ)
  | release (b : ℕ)

variable {τ : Type} [DecidableEq τ]

namespace Threads

def setCall (w : Threads τ) (t : τ) (c : Option Call) : Threads τ :=
  { w with calls := Function.update w.calls t c }

def goOn (w : Threads τ) (t : τ) (c : Call) : Threads τ :=
  w.setCall t (some { c with stmt := c.stmt.succ })

def setMem (w : Threads τ) (b : ℕ) (d : UartSendFormat) : Threads τ :=
  { w with mem := Function.update w.mem b d }

/-- A statement that writes through `Respdata`. -/
def writeRespdata (w : Threads τ) (t : τ) (c : Call) : Option (Threads τ) := do
  let r ← w.respdata
  return (w.goOn t c).setMem r
    { w.mem r with cmd := c.stmt.write c.info w.uartSendSn (w.mem r).cmd }

/-- One statement; with no free buffer the process ends. -/
def run (w : Threads τ) (t : τ) (c : Call) : Option (Threads τ × List Note) :=
  match c.stmt with
  | .produce =>
    match w.free with
    | [] => none
    | b :: free =>
      some ({ w with free := free }.setCall t
        (some { c with sendpdata := some b, stmt := .setBuf }),
        [.took b c.info])
  | .setBuf => do
    let b ← c.sendpdata
    return ((w.goOn t c).setMem b { w.mem b with buf := b }, [])
  | .setRespdata => do
    let b ← c.sendpdata
    return ({ w.goOn t c with respdata := some b }, [])
  | .sn => do
    let b ← c.sendpdata
    let w' ← w.writeRespdata t c
    return (w', [.read b w.uartSendSn])
  | .countSn => some ({ w.goOn t c with uartSendSn := w.uartSendSn + 1 }, [])
  | .pollType => do
    let b ← c.sendpdata
    let poll := { (w.mem b).poll with type := c.info.pollType.toNat }
    return ((w.goOn t c).setMem b { w.mem b with poll := poll }, [])
  | .link => do
    let b ← c.sendpdata
    return ({ w with list := w.list ++ [b] }.setCall t none, [])
  | _ => do
    let w' ← w.writeRespdata t c
    return (w', [])

/-- One step. -/
def step (w : Threads τ) : Act τ → Option (Threads τ × List Note)
  | .call t info =>
    match w.calls t with
    | none => some (w.setCall t (some ⟨info, none, .produce⟩), [])
    | some _ => none
  | .run t => do
    let c ← w.calls t
    w.run t c
  | .release b =>
    if b ∈ w.list then
      some ({ w with list := w.list.erase b, free := w.free ++ [b] }.setMem b
        { w.mem b with poll := .cleared }, [])
    else none

def next (w : Threads τ) (a : Act τ) : Option (Threads τ) := (w.step a).map Prod.fst

end Threads

/-! ### A call that runs alone -/

/-- The whole call of a thread. -/
def wholeCall (t : τ) (info : UartSendInfo) : List (Act τ) :=
  .call t info :: List.replicate 15 (.run t)

/-- The state while the call of `info` on `t` fills the buffer `b`, which is `Respdata`, and has
written `cmd` so far. -/
def Threads.filling (w : Threads τ) (t : τ) (b : ℕ) (info : UartSendInfo) (stmt : Stmt)
    (sn : UInt8) (cmd : UartCmdFormat) : Threads τ :=
  { w with
    respdata := some b
    uartSendSn := sn
    mem := Function.update w.mem b ⟨b, (w.mem b).poll, cmd⟩
    calls := Function.update w.calls t (some ⟨info, some b, stmt⟩) }

section

variable (w : Threads τ) (t : τ) (b : ℕ) (info : UartSendInfo) (sn : UInt8) (cmd : UartCmdFormat)

/-- A statement inside the call writes what it should to the buffer. -/
theorem next_filling (stmt : Stmt) (h : stmt.inside = true) (hc : stmt ≠ .countSn) :
    (w.filling t b info stmt sn cmd).next (.run t) =
      some (w.filling t b info stmt.succ sn (stmt.write info sn cmd)) := by
  cases stmt <;> first
    | exact absurd h (by decide)
    | exact absurd rfl hc
    | simp [Threads.next, Threads.step, Threads.run, Threads.filling, Threads.writeRespdata,
        Threads.goOn, Threads.setCall, Threads.setMem]

theorem next_filling_countSn : (w.filling t b info .countSn sn cmd).next (.run t) =
    some (w.filling t b info .pdtType (sn + 1) cmd) := by
  simp [Threads.next, Threads.step, Threads.run, Threads.filling, Threads.goOn, Threads.setCall,
    Stmt.succ]

/-- The call takes a buffer and sets `Respdata`. -/
theorem exec_enter {w : Threads τ} {t : τ} {b : ℕ} {free : List ℕ} (info : UartSendInfo)
    (ht : w.calls t = none) (hf : w.free = b :: free) :
    exec Threads.next w [.call t info, .run t, .run t, .run t] =
      some (({ w with free := free } : Threads τ).filling t b info .head w.uartSendSn
        (w.mem b).cmd) := by
  simp [exec, Threads.next, Threads.step, ht, hf, Threads.run, Threads.setCall, Threads.goOn,
    Threads.setMem, Threads.filling, Stmt.succ]

/-- The call fills the frame. -/
theorem exec_fill : exec Threads.next (w.filling t b info .head sn cmd)
      (List.replicate 10 (.run t)) =
    some (w.filling t b info .pollType (sn + 1) (disposeFrame info sn cmd)) := by
  have hw := fun stmt sn cmd => next_filling w t b info sn cmd stmt
  simp only [List.replicate, exec, hw .head _ _ rfl (by decide), hw .lengthMsb _ _ rfl (by decide),
    hw .lengthLsb _ _ rfl (by decide), hw .staParam _ _ rfl (by decide), hw .sn _ _ rfl (by decide),
    next_filling_countSn, hw .pdtType _ _ rfl (by decide), hw .cmdId _ _ rfl (by decide),
    hw .data _ _ rfl (by decide), hw .check _ _ rfl (by decide), Stmt.succ, Option.bind_some]
  simp only [Stmt.write, Stmt.protocolLen, disposeFrame, disposeHeader, setresplen]

/-- The call links the entry and returns. -/
theorem exec_leave (ht : w.calls t = none) :
    exec Threads.next (w.filling t b info .pollType sn cmd) [.run t, .run t] =
      some { w with
        respdata := some b
        uartSendSn := sn
        list := w.list ++ [b]
        mem := Function.update w.mem b
          ⟨b, { (w.mem b).poll with type := info.pollType.toNat }, cmd⟩ } := by
  have hc : Function.update w.calls t none = w.calls := by
    rw [← ht, Function.update_eq_self]
  simp [exec, Threads.next, Threads.step, Threads.run, Threads.filling, Threads.setCall,
    Threads.goOn, Threads.setMem, Stmt.succ, hc]

/-- A call that runs alone takes the first free buffer, fills and links it, and counts. -/
theorem exec_wholeCall {w : Threads τ} {t : τ} {b : ℕ} {free : List ℕ} (info : UartSendInfo)
    (ht : w.calls t = none) (hf : w.free = b :: free) :
    exec Threads.next w (wholeCall t info) = some { w with
      free := free
      respdata := some b
      uartSendSn := w.uartSendSn + 1
      list := w.list ++ [b]
      mem := Function.update w.mem b ⟨b, { (w.mem b).poll with type := info.pollType.toNat },
        disposeFrame info w.uartSendSn (w.mem b).cmd⟩ } := by
  have hcut : wholeCall t info = [.call t info, .run t, .run t, .run t] ++
      (List.replicate 10 (.run t) ++ [.run t, .run t]) := rfl
  rw [hcut, exec_append, exec_enter info ht hf, Option.bind_some, exec_append, exec_fill,
    Option.bind_some]
  exact exec_leave { w with free := free } t b info _ _ ht

/-- The queues as the calls share them. -/
def ofQueues (q : Queues) (respdata : Option ℕ) (calls : τ → Option Call) : Threads τ :=
  ⟨q.free, q.list, respdata, q.uartSendSn, q.mem, calls⟩

/-- **A call that runs alone** does what the one step of `uart_protocol_dispose` does. -/
theorem exec_wholeCall_dispose {q q' : Queues} {info : UartSendInfo} {es : List Event}
    (h : q.dispose info = .next (q', es)) (r : Option ℕ) {calls : τ → Option Call} {t : τ}
    (ht : calls t = none) : ∃ b, exec Threads.next (ofQueues q r calls) (wholeCall t info) =
      some (ofQueues q' (some b) calls) := by
  obtain ⟨⟨q₁, es₁⟩, he, hn⟩ := Outcome.bind_eq_next.mp h
  cases hn
  obtain ⟨b, free, hf, -, rfl⟩ := Queues.enqueue_next he
  refine ⟨b, (exec_wholeCall (w := ofQueues q r calls) info ht hf).trans ?_⟩
  simp [ofQueues, Queues.list]

end

end MultiPortConvertor.Uart.Interleaving
