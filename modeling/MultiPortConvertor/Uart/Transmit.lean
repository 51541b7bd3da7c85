import MultiPortConvertor.Tool.BufFactory
import MultiPortConvertor.Uart.Parse

/-! # The transmit side

The buffers of `g_uart_send_buf`, the list `g_uart_send_list`, the message queue `/mq_uart` and the
tasks that work on them, over a heap of list nodes. A step is one call of `uart_protocol_dispose`,
the handling of one received frame, or a piece of `uart_poll_tsk` or `uart_send_tsk`: the poll task
takes the lock, treats one entry, or gives the lock back, since a pass can wait for room in the
queue while the send task, which takes no lock, goes on; the send task takes a message, calls
`write` until all of it is written or a call fails, and tests `free_flag`. -/

namespace MultiPortConvertor.Uart.Transmit

open MultiPortConvertor.Lib.Bytes MultiPortConvertor.Lib.Outcomes MultiPortConvertor.Lib.Rings
open MultiPortConvertor.Tool.IntrusiveList MultiPortConvertor.Tool.BufFactory
open MultiPortConvertor.Uart.Format MultiPortConvertor.Uart.Dispose MultiPortConvertor.Uart.Parse

/-- The addresses of the list heads: `g_uart_send_buf->list` and the node of each buffer,
`g_uart_send_list` and the `list` in the memory of each buffer. -/
inductive Addr where
  | pool
  | node (b : ℕ)
  | queue
  | entry (b : ℕ)
  deriving DecidableEq

/-- `g_uart_send_buf`. -/
def gUartSendBuf : BufferFactory Addr where
  list := .pool
  node := .node
  node_injective := fun _ _ h => Addr.node.inj h
  node_ne_list := fun _ h => by cases h

/-- The number of buffers. -/
def uartSendBufNum : ℕ := 16

/-- The number of messages that `/mq_uart` holds. -/
def uartMbxNum : ℕ := 16

/-- `uart_poll_t`; the fields are `__u32`. -/
structure UartPoll where
  delay : ℕ
  times : ℕ
  type : ℕ
  freeFlag : ℕ
  deriving DecidableEq

/-- `memset(&(parray->poll), 0, sizeof(uart_poll_t))`. -/
def UartPoll.cleared : UartPoll := ⟨0, 0, 0, 0⟩

/-- `uart_send_format_t`, the memory of a buffer, but for its `list`; a pointer to it is the number
of the buffer. -/
structure UartSendFormat where
  buf : ℕ
  poll : UartPoll
  cmd : UartCmdFormat

/-- `struct message`; `id` and `prio` are the same in all. -/
structure Message where
  p : ℕ
  dataLen : ℕ
  deriving DecidableEq

/-- Where `uart_send_tsk` stands: before `mailbox_pend`, before a `write`, or before the test. -/
inductive SendTsk where
  | pend
  | write (msg : Message) (nhasSend : ℕ)
  | test (msg : Message)
  deriving DecidableEq

/-- The condition of the loop of `uart_send_tsk`. -/
def SendTsk.loop (msg : Message) (nhasSend : ℕ) : SendTsk :=
  if nhasSend < msg.dataLen then .write msg nhasSend else .test msg

/-- The message in the hands of `uart_send_tsk`. -/
def SendTsk.hand : SendTsk → List Message
  | .pend => []
  | .write msg _ => [msg]
  | .test msg => [msg]

@[simp] theorem SendTsk.hand_pend : SendTsk.pend.hand = [] := rfl

@[simp] theorem SendTsk.hand_write (msg : Message) (nhasSend : ℕ) :
    (SendTsk.write msg nhasSend).hand = [msg] := rfl

@[simp] theorem SendTsk.hand_test (msg : Message) : (SendTsk.test msg).hand = [msg] := rfl

@[simp] theorem SendTsk.hand_loop (msg : Message) (nhasSend : ℕ) :
    (SendTsk.loop msg nhasSend).hand = [msg] := by
  unfold SendTsk.loop
  split_ifs <;> rfl

/-- Where `uart_poll_tsk` stands: outside its pass, or in it with the lock and the pointer `p`. -/
inductive PollTsk where
  | sleep
  | pass (p : Option Addr)
  deriving DecidableEq

/-- The state of the transmit side. -/
structure Tx where
  heap : Heap Addr Owner
  mem : ℕ → UartSendFormat
  uartSendSn : UInt8
  mailbox : List Message
  sendTsk : SendTsk
  pollTsk : PollTsk

/-- What a step does to the buffers and the serial port, for the record. -/
inductive Event where
  | produce (b : ℕ)
  | recycle (b : ℕ)
  | post (msg : Message) (frame : List UInt8)
  | wrote (bytes : List UInt8)

/-- `uart_poll_mutex` is taken. -/
def Tx.locked (s : Tx) : Bool := s.pollTsk ≠ .sleep

def Tx.setMem (s : Tx) (b : ℕ) (d : UartSendFormat) : Tx :=
  { s with mem := Function.update s.mem b d }

def Tx.setPoll (s : Tx) (b : ℕ) (poll : UartPoll) : Tx :=
  s.setMem b { s.mem b with poll := poll }

/-- `list_add_tail(&(sendpdata->list), &g_uart_send_list)`, with the owner set before. -/
def linkEntry (b : ℕ) (s : Tx) : Outcome Tx := do
  let H ← .ofOption (listAddTail (s.heap.setOwner (.entry b) (some b)) (.entry b) .queue)
  return { s with heap := H }

/-- `uart_protocol_dispose`. -/
def uartProtocolDispose (info : UartSendInfo) (s : Tx) : Outcome (Tx × List Event) :=
  if s.locked then .blocked
  else do
    let (b, H) ← bufFactoryProduce gUartSendBuf s.heap
    let d := s.mem b
    let cmd := disposeFrame info s.uartSendSn d.cmd
    let poll := { d.poll with type := info.pollType.toNat }
    let s := { s with heap := H, uartSendSn := s.uartSendSn + 1 }
    let s ← linkEntry b (s.setMem b ⟨b, poll, cmd⟩)
    return (s, [.produce b])

/-- The branch of `uart_protocol_parse` that answers. -/
def queueResponse (r : Response) (s : Tx) : Outcome (Tx × List Event) :=
  if s.locked then .blocked
  else do
    let (b, H) ← bufFactoryProduce gUartSendBuf s.heap
    let d := s.mem b
    let cmd := r.frame d.cmd
    let poll := { d.poll with type := 0 }
    let s := { s with heap := H }
    let s ← linkEntry b (s.setMem b ⟨b, poll, cmd⟩)
    return (s, [.produce b])

/-- The loop of `uart_protocol_parse` over the send list, from `p` on, for the sequence number `sn`.
If it has not ended after `fuel` rounds it goes round in circles. -/
def ackLoop (sn : UInt8) (s : Tx) : ℕ → Option Addr → Outcome Tx
  | 0, _ => .blocked
  | fuel + 1, p =>
    if p = some .queue then .next s
    else do
      let p ← .ofOption p
      let parray ← .ofOption (s.heap p).owner
      if sn = (s.mem parray).cmd.sn then
        return s.setPoll parray { (s.mem parray).poll with freeFlag := 1 }
      else ackLoop sn s fuel (s.heap p).next

/-- The branch of `uart_protocol_parse` for the other commands. -/
def acknowledge (sn : UInt8) (s : Tx) : Outcome (Tx × List Event) :=
  if s.locked then .blocked
  else do
    let s ← ackLoop sn s (uartSendBufNum + 1) (s.heap .queue).next
    return (s, [])

/-- What `uart_protocol_parse` does to the transmit side. -/
def recv (p : Parsed) (s : Tx) : Outcome (Tx × List Event) :=
  match p with
  | .dropped => .next (s, [])
  | .respond r => queueResponse r s
  | .acknowledge sn _ => acknowledge sn s

/-- `mailbox_post`. -/
def mailboxPost (msg : Message) (s : Tx) : Outcome Tx :=
  if s.mailbox.length < uartMbxNum then .next { s with mailbox := s.mailbox ++ [msg] } else .blocked

/-- The message for an entry, posted. -/
def postEntry (parray : ℕ) (s : Tx) : Outcome (Tx × List Event) := do
  let cmd := (s.mem parray).cmd
  let msg := ⟨parray, cmd.getresplen⟩
  let s ← mailboxPost msg s
  return (s, [.post msg cmd.bytes])

/-- `p = p->next; list_del(p->prev);` -/
def unlink (p : Addr) (s : Tx) : Outcome Tx := do
  let p ← .ofOption (s.heap p).next
  let prev ← .ofOption (s.heap p).prev
  let H ← .ofOption (listDel s.heap prev)
  return { s with heap := H, pollTsk := .pass (some p) }

/-- The poll fields cleared and the buffer given back, as both tasks do it. -/
def release (parray : ℕ) (s : Tx) : Outcome (Tx × List Event) := do
  let s := s.setPoll parray .cleared
  let H ← bufFactoryRecycle gUartSendBuf (s.mem parray).buf s.heap
  return ({ s with heap := H }, [.recycle (s.mem parray).buf])

/-- `p = p->next;` -/
def goOn (p : Addr) (s : Tx) : Tx := { s with pollTsk := .pass (s.heap p).next }

/-- The body of the loop of `uart_poll_tsk` for the entry at `p`. -/
def pollEntry (p : Addr) (s : Tx) : Outcome (Tx × List Event) := do
  let parray ← .ofOption (s.heap p).owner
  let poll := (s.mem parray).poll
  if poll.type = 0 then
    let s := s.setPoll parray { poll with freeFlag := 1 }
    let (s, es) ← postEntry parray s
    let s ← unlink p s
    return (s, es)
  else if poll.type = 1 then
    if poll.times = 0 then
      let (s, es) ← postEntry parray s
      let s := s.setPoll parray { poll with times := (poll.times + 1) % 2 ^ 32 }
      return (goOn p s, es)
    else if poll.freeFlag ≠ 0 then
      let s ← unlink p s
      release parray s
    else
      let delay := (poll.delay + 5) % 2 ^ 32
      if delay ≥ 500 then
        let times := (poll.times + 1) % 2 ^ 32
        let s := s.setPoll parray { poll with delay := 0, times := times }
        if times > 3 then
          let s ← unlink p s
          release parray s
        else
          let (s, es) ← postEntry parray s
          return (goOn p s, es)
      else
        let s := s.setPoll parray { poll with delay := delay }
        return (goOn p s, [])
  else return (goOn p s, [])

/-- The steps. -/
inductive Action where
  | dispose (info : UartSendInfo)
  | recv (p : Parsed)
  | pollLock
  | pollEntry
  | pollUnlock
  | take
  | write (nsend : ℤ)
  | test

/-- The bytes that `nsend` bytes from `&(Data_OutMbx->cmd) + nhas_send` on are. -/
def Tx.written (s : Tx) (msg : Message) (nhasSend nsend : ℕ) : List UInt8 :=
  slice (s.mem msg.p).cmd (sizeofUartCmdFormat * nhasSend) nsend

/-- The body of the loop of `uart_send_tsk`, where `write` returns `nsend`. -/
def sendWrite (msg : Message) (nhasSend : ℕ) (nsend : ℤ) (s : Tx) : Outcome (Tx × List Event) :=
  if nsend ≤ 0 then .next ({ s with sendTsk := .test msg }, [])
  else if nhasSend + nsend.toNat ≤ msg.dataLen then
    .next ({ s with sendTsk := .loop msg (nhasSend + nsend.toNat) },
      [.wrote (s.written msg nhasSend nsend.toNat)])
  else .blocked

/-- One step. A step that its task cannot take now, or a result that `write` cannot have, is
`blocked`. -/
def Tx.step (s : Tx) : Action → Outcome (Tx × List Event)
  | .dispose info => uartProtocolDispose info s
  | .recv p => Transmit.recv p s
  | .pollLock =>
    match s.pollTsk with
    | .sleep => .next ({ s with pollTsk := .pass (s.heap .queue).next }, [])
    | .pass _ => .blocked
  | .pollEntry =>
    match s.pollTsk with
    | .sleep => .blocked
    | .pass p =>
      if p = some .queue then .blocked
      else do
        let p ← .ofOption p
        Transmit.pollEntry p s
  | .pollUnlock =>
    if s.pollTsk = .pass (some .queue) then .next ({ s with pollTsk := .sleep }, []) else .blocked
  | .take =>
    match s.sendTsk, s.mailbox with
    | .pend, msg :: rest => .next ({ s with mailbox := rest, sendTsk := .loop msg 0 }, [])
    | _, _ => .blocked
  | .write nsend =>
    match s.sendTsk with
    | .write msg nhasSend => sendWrite msg nhasSend nsend s
    | _ => .blocked
  | .test =>
    match s.sendTsk with
    | .test msg =>
      let s := { s with sendTsk := .pend }
      if (s.mem msg.p).poll.freeFlag ≠ 0 then release msg.p s else .next (s, [])
    | _ => .blocked

/-- The next state, for runs. -/
def next (s : Tx) (a : Action) : Option Tx := (s.step a).toOption.map Prod.fst

/-- `uart_context_init`, on memory with any contents. -/
def uartContextInit (H : Heap Addr Owner) (mem : ℕ → UartSendFormat) : Outcome Tx := do
  let H ← createBufFactory gUartSendBuf uartSendBufNum (initListHead H .queue none)
  return {
    heap := H, mem := mem, uartSendSn := 0, mailbox := [], sendTsk := .pend, pollTsk := .sleep }

/-- The buffers in the free ring, oldest first. -/
def Tx.freeRing (s : Tx) : List ℕ :=
  (walk s.heap.links.next .pool (uartSendBufNum + 1) (s.heap .pool).next).filterMap
    fun a => (s.heap a).owner

/-- The buffers of the entries on `g_uart_send_list`, oldest first. -/
def Tx.sendList (s : Tx) : List ℕ :=
  (walk s.heap.links.next .queue (uartSendBufNum + 1) (s.heap .queue).next).filterMap
    fun a => (s.heap a).owner

end MultiPortConvertor.Uart.Transmit
