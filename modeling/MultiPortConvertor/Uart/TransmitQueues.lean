import MultiPortConvertor.Uart.Transmit
import Mathlib.Data.List.Perm.Basic

/-! # The transmit side as queues

The abstract view of the transmit side: instead of a heap of list nodes, the queue of the free
buffers and the queue of the entries, the part the poll task has passed and the rest. What the poll
task does with an entry is decided by its poll fields alone (`verdict`). `Books` keeps the account
of the buffers: which are free, which are linked, and which messages are on their way; a step
changes it in one of a few ways (`Change`, `step_change`). -/

namespace MultiPortConvertor.Uart.TransmitQueues

open MultiPortConvertor.Lib.Bytes MultiPortConvertor.Lib.Outcomes MultiPortConvertor.Uart.Format
open MultiPortConvertor.Uart.Dispose MultiPortConvertor.Uart.Parse MultiPortConvertor.Uart.Transmit

/-- What the poll task does with an entry: post it and unlink it, post it, leave it, or unlink it
and give its buffer back. -/
inductive Verdict where
  | sendLast (poll : UartPoll)
  | send (poll : UartPoll)
  | keep (poll : UartPoll)
  | drop

/-- The decision of `uart_poll_tsk`. -/
def verdict (poll : UartPoll) : Verdict :=
  if poll.type = 0 then .sendLast { poll with freeFlag := 1 }
  else if poll.type = 1 then
    if poll.times = 0 then .send { poll with times := (poll.times + 1) % 2 ^ 32 }
    else if poll.freeFlag ≠ 0 then .drop
    else if (poll.delay + 5) % 2 ^ 32 ≥ 500 then
      if (poll.times + 1) % 2 ^ 32 > 3 then .drop
      else .send { poll with delay := 0, times := (poll.times + 1) % 2 ^ 32 }
    else .keep { poll with delay := (poll.delay + 5) % 2 ^ 32 }
  else .keep poll

section

variable {poll poll' : UartPoll}

theorem verdict_sendLast (hv : verdict poll = .sendLast poll') :
    poll.type = 0 ∧ poll' = { poll with freeFlag := 1 } := by
  unfold verdict at hv
  split_ifs at hv with h0
  cases hv
  exact ⟨h0, rfl⟩

/-- The poll task posts an entry of the kind of notifications when it has not been sent, and when
its time is over but not its attempts. -/
theorem verdict_send (hv : verdict poll = .send poll') : poll.type = 1 ∧
    (poll.times = 0 ∧ poll' = { poll with times := (poll.times + 1) % 2 ^ 32 } ∨
      poll.times ≠ 0 ∧ poll.freeFlag = 0 ∧ 500 ≤ (poll.delay + 5) % 2 ^ 32 ∧
        (poll.times + 1) % 2 ^ 32 ≤ 3 ∧
          poll' = { poll with delay := 0, times := (poll.times + 1) % 2 ^ 32 }) := by
  unfold verdict at hv
  split_ifs at hv with h0 h1 ht hf hd hn
  · cases hv
    exact ⟨h1, .inl ⟨ht, rfl⟩⟩
  · cases hv
    exact ⟨h1, .inr ⟨ht, not_not.mp hf, hd, not_lt.mp hn, rfl⟩⟩

theorem verdict_keep (hv : verdict poll = .keep poll') :
    (poll.type = 1 ∧ poll.times ≠ 0 ∧ poll.freeFlag = 0 ∧ (poll.delay + 5) % 2 ^ 32 < 500 ∧
      poll' = { poll with delay := (poll.delay + 5) % 2 ^ 32 }) ∨
      (1 < poll.type ∧ poll' = poll) := by
  unfold verdict at hv
  split_ifs at hv with h0 h1 ht hf hd
  · cases hv
    exact .inl ⟨h1, ht, not_not.mp hf, not_le.mp hd, rfl⟩
  · cases hv
    exact .inr ⟨by omega, rfl⟩

theorem verdict_drop (hv : verdict poll = .drop) : poll.type = 1 ∧ poll.times ≠ 0 ∧
    (poll.freeFlag ≠ 0 ∨ 500 ≤ (poll.delay + 5) % 2 ^ 32 ∧ 3 < (poll.times + 1) % 2 ^ 32) := by
  unfold verdict at hv
  split_ifs at hv with h0 h1 ht hf hd hn
  · exact ⟨h1, ht, .inl hf⟩
  · exact ⟨h1, ht, .inr ⟨hd, hn⟩⟩

end

/-- The abstract state: `seen` and `rest` are the entries before and from the pointer of the poll
task. -/
structure Queues where
  free : List ℕ
  seen : List ℕ
  rest : List ℕ
  locked : Bool
  mem : ℕ → UartSendFormat
  uartSendSn : UInt8
  mailbox : List Message
  sendTsk : SendTsk

namespace Queues

/-- The entries, oldest first. -/
def list (q : Queues) : List ℕ := q.seen ++ q.rest

def setPoll (q : Queues) (b : ℕ) (poll : UartPoll) : Queues :=
  { q with mem := Function.update q.mem b { q.mem b with poll := poll } }

/-- A buffer is taken, filled and linked. -/
def enqueue (fill : UartCmdFormat → UartCmdFormat) (type : ℕ) (q : Queues) :
    Outcome (Queues × List Event) :=
  if q.locked then .blocked
  else match q.free with
    | [] => .exit
    | b :: free =>
      let d := q.mem b
      .next ({ q with
        free := free
        rest := q.rest ++ [b]
        mem := Function.update q.mem b ⟨b, { d.poll with type := type }, fill d.cmd⟩ },
        [.produce b])

def dispose (info : UartSendInfo) (q : Queues) : Outcome (Queues × List Event) := do
  let (r, es) ← q.enqueue (disposeFrame info q.uartSendSn) info.pollType.toNat
  return ({ r with uartSendSn := q.uartSendSn + 1 }, es)

/-- The first entry with the sequence number is marked. -/
def acknowledge (sn : UInt8) (q : Queues) : Outcome (Queues × List Event) :=
  if q.locked then .blocked
  else match q.list.find? fun b => (q.mem b).cmd.sn = sn with
    | none => .next (q, [])
    | some b => .next (q.setPoll b { (q.mem b).poll with freeFlag := 1 }, [])

def recv (p : Parsed) (q : Queues) : Outcome (Queues × List Event) :=
  match p with
  | .dropped => .next (q, [])
  | .respond r => q.enqueue r.frame 0
  | .acknowledge sn _ => q.acknowledge sn

/-- The message for a buffer. -/
def message (q : Queues) (b : ℕ) : Message := ⟨b, (q.mem b).cmd.getresplen⟩

/-- A message is posted, if there is room. -/
def post (q : Queues) (b : ℕ) (r : Queues) : Outcome (Queues × List Event) :=
  if q.mailbox.length < uartMbxNum then
    .next ({ r with mailbox := q.mailbox ++ [q.message b] },
      [.post (q.message b) (q.mem b).cmd.bytes])
  else .blocked

/-- The poll fields are cleared and the buffer is given back. -/
def release (q : Queues) (b : ℕ) : Queues :=
  { q.setPoll b .cleared with free := q.free ++ [(q.mem b).buf] }

/-- The poll task treats the entry `b`, with `rest` behind it. -/
def treat (q : Queues) (b : ℕ) (rest : List ℕ) : Outcome (Queues × List Event) :=
  match verdict (q.mem b).poll with
  | .sendLast poll => q.post b { q.setPoll b poll with rest := rest }
  | .send poll => q.post b { q.setPoll b poll with seen := q.seen ++ [b], rest := rest }
  | .keep poll => .next ({ q.setPoll b poll with seen := q.seen ++ [b], rest := rest }, [])
  | .drop => .next ({ q.release b with rest := rest }, [.recycle (q.mem b).buf])

/-- A part of the message is written, or `write` fails. -/
def sendWrite (msg : Message) (nhasSend : ℕ) (nsend : ℤ) (q : Queues) :
    Outcome (Queues × List Event) :=
  if nsend ≤ 0 then .next ({ q with sendTsk := .test msg }, [])
  else if nhasSend + nsend.toNat ≤ msg.dataLen then
    .next ({ q with sendTsk := .loop msg (nhasSend + nsend.toNat) },
      [.wrote (slice (q.mem msg.p).cmd (sizeofUartCmdFormat * nhasSend) nsend.toNat)])
  else .blocked

/-- One step. -/
def step (q : Queues) : Action → Outcome (Queues × List Event)
  | .dispose info => q.dispose info
  | .recv p => q.recv p
  | .pollLock => if q.locked then .blocked else .next ({ q with locked := true }, [])
  | .pollEntry =>
    if q.locked then
      match q.rest with
      | [] => .blocked
      | b :: rest => q.treat b rest
    else .blocked
  | .pollUnlock =>
    if q.locked ∧ q.rest = [] then
      .next ({ q with locked := false, seen := [], rest := q.seen }, [])
    else .blocked
  | .take =>
    match q.sendTsk, q.mailbox with
    | .pend, msg :: mailbox => .next ({ q with mailbox := mailbox, sendTsk := .loop msg 0 }, [])
    | _, _ => .blocked
  | .write nsend =>
    match q.sendTsk with
    | .write msg nhasSend => sendWrite msg nhasSend nsend q
    | _ => .blocked
  | .test =>
    match q.sendTsk with
    | .test msg =>
      let q := { q with sendTsk := .pend }
      if (q.mem msg.p).poll.freeFlag ≠ 0 then
        .next (q.release msg.p, [.recycle (q.mem msg.p).buf])
      else .next (q, [])
    | _ => .blocked

/-- The next state, for runs. -/
def next (q : Queues) (a : Action) : Option Queues := (q.step a).toOption.map Prod.fst

theorem enqueue_ne_fault (fill : UartCmdFormat → UartCmdFormat) (type : ℕ) (q : Queues) :
    q.enqueue fill type ≠ .fault := by
  unfold enqueue
  split_ifs
  · simp
  · split <;> simp

theorem acknowledge_ends (sn : UInt8) (q : Queues) :
    q.acknowledge sn ≠ .exit ∧ q.acknowledge sn ≠ .fault := by
  unfold acknowledge
  split_ifs
  · simp
  · split <;> simp

theorem treat_ends (q : Queues) (b : ℕ) (rest : List ℕ) :
    q.treat b rest ≠ .exit ∧ q.treat b rest ≠ .fault := by
  have hpost : ∀ r, q.post b r ≠ .exit ∧ q.post b r ≠ .fault := by
    intro r
    unfold post
    split_ifs <;> simp
  unfold treat
  split
  · exact hpost _
  · exact hpost _
  · simp
  · simp

/-- An entry can be treated as long as there is room for its message. -/
theorem treat_of_room {q : Queues} (h : q.mailbox.length < uartMbxNum) (b : ℕ) (rest : List ℕ) :
    ∃ x, q.treat b rest = .next x := by
  unfold treat
  split
  · exact ⟨_, if_pos h⟩
  · exact ⟨_, if_pos h⟩
  · exact ⟨_, rfl⟩
  · exact ⟨_, rfl⟩

/-- The queues follow no `NULL`. -/
theorem step_ne_fault (q : Queues) (a : Action) : q.step a ≠ .fault := by
  cases a with
  | dispose info =>
    intro h
    rcases Outcome.bind_eq_fault.mp h with he | ⟨x, -, hx⟩
    · exact enqueue_ne_fault _ _ q he
    · cases hx
  | recv p =>
    cases p with
    | dropped => simp [step, recv]
    | respond r => exact enqueue_ne_fault _ _ q
    | acknowledge sn reply => exact (acknowledge_ends sn q).2
  | pollLock =>
    simp only [step]
    split_ifs <;> simp
  | pollEntry =>
    simp only [step]
    split_ifs
    · split
      · simp
      · exact (treat_ends q _ _).2
    · simp
  | pollUnlock =>
    simp only [step]
    split_ifs <;> simp
  | take =>
    simp only [step]
    split <;> simp
  | write nsend =>
    simp only [step, sendWrite]
    split
    · split_ifs <;> simp
    · simp
  | test =>
    simp only [step]
    split
    · split_ifs <;> simp
    · simp

/-- The messages on their way. -/
def messages (q : Queues) : List Message := q.sendTsk.hand ++ q.mailbox

end Queues

/-! ### The account of the buffers -/

/-- The free buffers, the linked ones, the memory of the buffers, and the messages on their way, the
one in the hands of the send task first. -/
structure Books where
  free : List ℕ
  list : List ℕ
  mem : ℕ → UartSendFormat
  messages : List Message

def Queues.books (q : Queues) : Books := ⟨q.free, q.list, q.mem, q.messages⟩

/-- The memory with the poll fields of one buffer changed. -/
def setPoll (mem : ℕ → UartSendFormat) (b : ℕ) (poll : UartPoll) : ℕ → UartSendFormat :=
  Function.update mem b { mem b with poll := poll }

section

variable (mem : ℕ → UartSendFormat) (b x : ℕ) (poll : UartPoll)

@[simp] theorem setPoll_buf : (setPoll mem b poll x).buf = (mem x).buf := by
  unfold setPoll
  rw [Function.update_apply]
  split_ifs with h
  · rw [h]
  · rfl

@[simp] theorem setPoll_cmd : (setPoll mem b poll x).cmd = (mem x).cmd := by
  unfold setPoll
  rw [Function.update_apply]
  split_ifs with h
  · rw [h]
  · rfl

theorem setPoll_poll : (setPoll mem b poll x).poll = if x = b then poll else (mem x).poll := by
  unfold setPoll
  rw [Function.update_apply]
  split_ifs <;> rfl

@[simp] theorem setPoll_poll_self : (setPoll mem b poll b).poll = poll := by
  rw [setPoll_poll, if_pos rfl]

theorem setPoll_poll_of_ne {x : ℕ} (h : x ≠ b) : (setPoll mem b poll x).poll = (mem x).poll := by
  rw [setPoll_poll, if_neg h]

end

/-- The message for a buffer. -/
def messageOf (mem : ℕ → UartSendFormat) (b : ℕ) : Message := ⟨b, (mem b).cmd.getresplen⟩

/-- **What a step does to the account**; the first index is the message whose `free_flag` is tested.
-/
inductive Change : Option Message → Books → List Event → Books → Prop
  | idle (k : Books) : Change none k [] k
  | wrote (k : Books) (bytes : List UInt8) : Change none k [.wrote bytes] k
  | enqueue (b type : ℕ) (fill : UartCmdFormat → UartCmdFormat) (free list : List ℕ)
      (mem : ℕ → UartSendFormat) (messages : List Message) :
      Change none ⟨b :: free, list, mem, messages⟩ [.produce b] ⟨free, list ++ [b],
        Function.update mem b ⟨b, { (mem b).poll with type := type }, fill (mem b).cmd⟩, messages⟩
  | mark (b : ℕ) (k : Books) (hb : b ∈ k.list) :
      Change none k [] { k with mem := setPoll k.mem b { (k.mem b).poll with freeFlag := 1 } }
  | sendLast (b : ℕ) (l r free : List ℕ) (mem : ℕ → UartSendFormat) (messages : List Message)
      (poll : UartPoll) (hv : verdict (mem b).poll = .sendLast poll) :
      Change none ⟨free, l ++ b :: r, mem, messages⟩ [.post (messageOf mem b) (mem b).cmd.bytes]
        ⟨free, l ++ r, setPoll mem b poll, messages ++ [messageOf mem b]⟩
  | send (b : ℕ) (k : Books) (poll : UartPoll) (hb : b ∈ k.list)
      (hv : verdict (k.mem b).poll = .send poll) :
      Change none k [.post (messageOf k.mem b) (k.mem b).cmd.bytes]
        { k with mem := setPoll k.mem b poll, messages := k.messages ++ [messageOf k.mem b] }
  | keep (b : ℕ) (k : Books) (poll : UartPoll) (hb : b ∈ k.list)
      (hv : verdict (k.mem b).poll = .keep poll) :
      Change none k [] { k with mem := setPoll k.mem b poll }
  | drop (b : ℕ) (l r free : List ℕ) (mem : ℕ → UartSendFormat) (messages : List Message)
      (hv : verdict (mem b).poll = .drop) :
      Change none ⟨free, l ++ b :: r, mem, messages⟩ [.recycle (mem b).buf]
        ⟨free ++ [(mem b).buf], l ++ r, setPoll mem b .cleared, messages⟩
  | recycle (msg : Message) (free list : List ℕ) (mem : ℕ → UartSendFormat)
      (messages : List Message) (hf : (mem msg.p).poll.freeFlag ≠ 0) :
      Change (some msg) ⟨free, list, mem, msg :: messages⟩ [.recycle (mem msg.p).buf]
        ⟨free ++ [(mem msg.p).buf], list, setPoll mem msg.p .cleared, messages⟩
  | done (msg : Message) (free list : List ℕ) (mem : ℕ → UartSendFormat)
      (messages : List Message) (hf : (mem msg.p).poll.freeFlag = 0) :
      Change (some msg) ⟨free, list, mem, msg :: messages⟩ [] ⟨free, list, mem, messages⟩

/-- The pass is over whenever the lock is free. -/
def Queues.Rewound (q : Queues) : Prop := q.locked = false → q.seen = []

namespace Queues

variable {q q' : Queues} {es : List Event}

/-- An enqueue takes the first free buffer. -/
theorem enqueue_next {fill : UartCmdFormat → UartCmdFormat} {type : ℕ}
    (h : q.enqueue fill type = .next (q', es)) : ∃ b free, q.free = b :: free ∧ es = [.produce b] ∧
      q' = { q with
        free := free
        rest := q.rest ++ [b]
        mem := Function.update q.mem b
          ⟨b, { (q.mem b).poll with type := type }, fill (q.mem b).cmd⟩ } := by
  unfold enqueue at h
  split_ifs at h
  split at h
  · cases h
  · rename_i b free hf
    cases h
    exact ⟨b, free, hf, rfl, rfl⟩

theorem unlocked_of_enqueue {fill : UartCmdFormat → UartCmdFormat} {type : ℕ}
    (h : q.enqueue fill type = .next (q', es)) : q.locked = false := by
  unfold enqueue at h
  split_ifs at h with hl
  simpa using hl

/-- An acknowledgement finds nothing, or marks one entry. -/
theorem acknowledge_next {sn : UInt8} (h : q.acknowledge sn = .next (q', es)) : es = [] ∧
    (q' = q ∨ ∃ b ∈ q.list, q' = q.setPoll b { (q.mem b).poll with freeFlag := 1 }) := by
  unfold acknowledge at h
  split_ifs at h
  split at h
  · cases h
    exact ⟨rfl, .inl rfl⟩
  · rename_i b hf
    cases h
    exact ⟨rfl, .inr ⟨b, List.mem_of_find?_eq_some hf, rfl⟩⟩

/-- The treatment of an entry, verdict by verdict. -/
theorem treat_next {b : ℕ} {rest : List ℕ} (h : q.treat b rest = .next (q', es)) :
    (∃ poll, verdict (q.mem b).poll = .sendLast poll ∧
      es = [.post (q.message b) (q.mem b).cmd.bytes] ∧
        q' = { q.setPoll b poll with rest := rest, mailbox := q.mailbox ++ [q.message b] }) ∨
    (∃ poll, verdict (q.mem b).poll = .send poll ∧
      es = [.post (q.message b) (q.mem b).cmd.bytes] ∧
        q' = { q.setPoll b poll with
          seen := q.seen ++ [b], rest := rest, mailbox := q.mailbox ++ [q.message b] }) ∨
    (∃ poll, verdict (q.mem b).poll = .keep poll ∧ es = [] ∧
      q' = { q.setPoll b poll with seen := q.seen ++ [b], rest := rest }) ∨
    (verdict (q.mem b).poll = .drop ∧ es = [.recycle (q.mem b).buf] ∧
      q' = { q.release b with rest := rest }) := by
  unfold treat post at h
  split at h
  · rename_i poll hv
    split_ifs at h
    cases h
    exact .inl ⟨poll, hv, rfl, rfl⟩
  · rename_i poll hv
    split_ifs at h
    cases h
    exact .inr (.inl ⟨poll, hv, rfl, rfl⟩)
  · rename_i poll hv
    cases h
    exact .inr (.inr (.inl ⟨poll, hv, rfl, rfl⟩))
  · rename_i hv
    cases h
    exact .inr (.inr (.inr ⟨hv, rfl, rfl⟩))

theorem enqueue_change {fill : UartCmdFormat → UartCmdFormat} {type : ℕ}
    (h : q.enqueue fill type = .next (q', es)) : Change none q.books es q'.books ∧
      q'.locked = q.locked ∧ q'.seen = q.seen := by
  obtain ⟨b, free, hf, rfl, rfl⟩ := enqueue_next h
  refine ⟨?_, rfl, rfl⟩
  have hc := Change.enqueue b type fill free q.list q.mem q.messages
  unfold books
  rw [hf]
  simpa [list, messages] using hc

theorem acknowledge_change {sn : UInt8} (h : q.acknowledge sn = .next (q', es)) :
    Change none q.books es q'.books ∧ q'.locked = q.locked ∧ q'.seen = q.seen := by
  obtain ⟨rfl, rfl | ⟨b, hb, rfl⟩⟩ := acknowledge_next h
  · exact ⟨.idle _, rfl, rfl⟩
  · exact ⟨.mark b q.books hb, rfl, rfl⟩

theorem treat_change {b : ℕ} {rest : List ℕ} (hr : q.rest = b :: rest)
    (h : q.treat b rest = .next (q', es)) : Change none q.books es q'.books ∧
    q'.locked = q.locked := by
  have hl : q.list = q.seen ++ b :: rest := by rw [list, hr]
  have hb : b ∈ q.list := by
    rw [hl]
    simp
  obtain ⟨poll, hv, rfl, rfl⟩ | ⟨poll, hv, rfl, rfl⟩ | ⟨poll, hv, rfl, rfl⟩ | ⟨hv, rfl, rfl⟩ :=
    treat_next h
  · have hc := Change.sendLast b q.seen rest q.free q.mem q.messages poll hv
    rw [← hl] at hc
    refine ⟨?_, rfl⟩
    simpa [books, list, messages, message, messageOf, setPoll, TransmitQueues.setPoll] using hc
  · have hc := Change.send b q.books poll hb hv
    refine ⟨?_, rfl⟩
    simpa [books, list, hr, messages, message, messageOf, setPoll, TransmitQueues.setPoll]
      using hc
  · have hc := Change.keep b q.books poll hb hv
    refine ⟨?_, rfl⟩
    simpa [books, list, hr, messages, setPoll, TransmitQueues.setPoll] using hc
  · have hc := Change.drop b q.seen rest q.free q.mem q.messages hv
    rw [← hl] at hc
    refine ⟨?_, rfl⟩
    simpa [books, list, messages, release, setPoll, TransmitQueues.setPoll] using hc

section

variable (q : Queues) (b : ℕ) (poll : UartPoll)

@[simp] theorem setPoll_mailbox : (q.setPoll b poll).mailbox = q.mailbox := rfl

@[simp] theorem setPoll_message : (q.setPoll b poll).message b = q.message b := by
  simp [message, setPoll]

@[simp] theorem setPoll_mem_cmd : ((q.setPoll b poll).mem b).cmd = (q.mem b).cmd := by
  simp [setPoll]

@[simp] theorem setPoll_mem_buf : ((q.setPoll b poll).mem b).buf = (q.mem b).buf := by
  simp [setPoll]

theorem setPoll_eq_self : q.setPoll b (q.mem b).poll = q := by
  simp [setPoll]

theorem release_setPoll : (q.setPoll b poll).release b = q.release b := by
  simp [release, setPoll]

end

/-- The message that a step tests. -/
def tested (q : Queues) (a : Action) : Option Message :=
  match a with
  | .test =>
    match q.sendTsk with
    | .test msg => some msg
    | _ => none
  | _ => none

theorem test_change (h : q.step .test = .next (q', es)) :
    Change (q.tested .test) q.books es q'.books ∧ q'.locked = q.locked ∧ q'.seen = q.seen := by
  cases ht : q.sendTsk with
  | pend => simp [step, ht] at h
  | write msg nhasSend => simp [step, ht] at h
  | test msg =>
    have hb : q.books = ⟨q.free, q.list, q.mem, msg :: q.mailbox⟩ := by
      simp [books, messages, ht]
    have hm : q.tested .test = some msg := by simp [tested, ht]
    rw [hm, hb]
    simp only [step, ht] at h
    split_ifs at h with hf
    · cases h
      have hc := Change.recycle msg q.free q.list q.mem q.mailbox hf
      refine ⟨?_, rfl, rfl⟩
      simpa [books, list, messages, release, setPoll, TransmitQueues.setPoll] using hc
    · cases h
      have hc := Change.done msg q.free q.list q.mem q.mailbox (by simpa using hf)
      refine ⟨?_, rfl, rfl⟩
      simpa [books, list, messages] using hc

theorem sendWrite_change {msg : Message} {nhasSend : ℕ} {nsend : ℤ}
    (ht : q.sendTsk = .write msg nhasSend) (h : sendWrite msg nhasSend nsend q = .next (q', es)) :
    Change none q.books es q'.books ∧ q'.locked = q.locked ∧ q'.seen = q.seen := by
  unfold sendWrite at h
  split_ifs at h with hn hle
  · cases h
    have hc := Change.idle q.books
    refine ⟨?_, rfl, rfl⟩
    simpa [books, list, messages, ht] using hc
  · cases h
    have hc := Change.wrote q.books
      (slice (q.mem msg.p).cmd (sizeofUartCmdFormat * nhasSend) nsend.toNat)
    refine ⟨?_, rfl, rfl⟩
    simpa [books, list, messages, ht] using hc

/-- **A step changes the account** in one of the ways listed, and leaves no entry behind. -/
theorem step_change {a : Action} (hw : q.Rewound) (h : q.step a = .next (q', es)) :
    Change (q.tested a) q.books es q'.books ∧ q'.Rewound := by
  have keep : q'.locked = q.locked → q'.seen = q.seen → q'.Rewound := by
    intro hl hs hu
    rw [hs]
    exact hw (hl ▸ hu)
  cases a with
  | dispose info =>
    obtain ⟨⟨r, es'⟩, hr, hn⟩ := Outcome.bind_eq_next.mp h
    cases hn
    obtain ⟨hc, hl, hs⟩ := enqueue_change hr
    exact ⟨hc, keep hl hs⟩
  | recv p =>
    cases p with
    | dropped => cases h; exact ⟨.idle _, hw⟩
    | respond r =>
      obtain ⟨hc, hl, hs⟩ := enqueue_change h
      exact ⟨hc, keep hl hs⟩
    | acknowledge sn reply =>
      obtain ⟨hc, hl, hs⟩ := acknowledge_change h
      exact ⟨hc, keep hl hs⟩
  | pollLock =>
    simp only [step] at h
    split_ifs at h
    cases h
    exact ⟨.idle _, fun hu => by cases hu⟩
  | pollEntry =>
    simp only [step] at h
    split_ifs at h with hl
    cases hr : q.rest with
    | nil =>
      rw [hr] at h
      cases h
    | cons b rest =>
      rw [hr] at h
      obtain ⟨hc, hlk⟩ := treat_change hr h
      refine ⟨hc, fun hu => ?_⟩
      rw [hlk, hl] at hu
      cases hu
  | pollUnlock =>
    simp only [step] at h
    split_ifs at h with hl
    cases h
    refine ⟨?_, fun _ => rfl⟩
    have hc := Change.idle q.books
    simpa [tested, books, list, hl.2, messages] using hc
  | take =>
    cases ht : q.sendTsk with
    | pend =>
      cases hm : q.mailbox with
      | nil => simp [step, ht, hm] at h
      | cons msg mailbox =>
        simp only [step, ht, hm] at h
        cases h
        refine ⟨?_, keep rfl rfl⟩
        have hc := Change.idle q.books
        simpa [tested, books, list, messages, ht, hm] using hc
    | write msg nhasSend => simp [step, ht] at h
    | test msg => simp [step, ht] at h
  | write nsend =>
    cases ht : q.sendTsk with
    | pend => simp [step, ht] at h
    | write msg nhasSend =>
      simp only [step, ht] at h
      obtain ⟨hc, hl, hs⟩ := sendWrite_change ht h
      exact ⟨hc, keep hl hs⟩
    | test msg => simp [step, ht] at h
  | test =>
    obtain ⟨hc, hl, hs⟩ := test_change h
    exact ⟨hc, keep hl hs⟩

end Queues

end MultiPortConvertor.Uart.TransmitQueues
