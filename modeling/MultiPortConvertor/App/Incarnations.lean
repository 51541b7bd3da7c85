import MultiPortConvertor.Lib.LastingQueues
import MultiPortConvertor.Uart.Pointers
import MultiPortConvertor.Uart.Release
import MultiPortConvertor.Usb.HidTasks

/-! # One process after the other

`main` opens the UART side and then the keyboard side, and each side opens its message queue,
`/mq_uart` and `/mq_hid`. A process ends in `exit(-1)` of `ERROR`, on a `NULL` pointer, or because
it is stopped; the queues stay with their messages, and the next process opens them as they are. A
message is a pointer of the process that posted it: `seen` says to which buffer of the new process
it points, if to one at all. -/

namespace MultiPortConvertor.App.Incarnations

open MultiPortConvertor.Lib.Outcomes MultiPortConvertor.Lib.Runs
open MultiPortConvertor.Lib.LastingQueues
open MultiPortConvertor.Tool.IntrusiveList MultiPortConvertor.Tool.BufFactory
open MultiPortConvertor.Uart.Transmit MultiPortConvertor.Uart.Pointers
open MultiPortConvertor.Usb.HidData
open MultiPortConvertor.Usb.HidTasks (Hid HidFormat hidContextInit hidBufNum)

/-- `mailbox_create`: `mq_open` with `O_CREAT` makes a queue, or opens the one that there is. -/
def mailboxCreate {μ : Type} (mq : Option (List μ)) : List μ := mq.getD []

/-- The two sides of the process, if they are open, and the queues as the last process that had them
open left them. -/
structure Machine where
  uart : Option Tx
  hid : Option Hid
  mqUart : Option (List Message)
  mqHid : Option (List ℕ)

/-- The steps. -/
inductive Action where
  | uartContextInit (H : Heap Uart.Transmit.Addr Owner) (mem : ℕ → UartSendFormat) (seen : ℕ → ℕ)
  | hidContextInit (H : Heap Usb.HidTasks.Addr Owner) (mem : ℕ → HidFormat) (seen : ℕ → ℕ)
  | uart (a : Uart.Transmit.Action)
  | hid (a : Usb.HidTasks.Action)
  | stop

/-- What a step does to the queues: it opens one, may take a message from one and posts `n`, or the
process ends. -/
inductive Event where
  | openUart
  | openHid
  | uart (took : Bool) (n : ℕ)
  | hid (took : Bool) (n : ℕ)
  | ended
  deriving DecidableEq

/-- The process ends. -/
def Machine.stop (m : Machine) : Machine where
  uart := none
  hid := none
  mqUart := (m.uart.map Tx.mailbox).or m.mqUart
  mqHid := (m.hid.map Hid.mailbox).or m.mqHid

/-- The machine after a piece of code of the process. -/
def Machine.settle {β : Type} (m : Machine) (f : β → Machine × Event) :
    Outcome β → Option (Machine × Event)
  | .next b => some (f b)
  | .blocked => none
  | .exit => some (m.stop, .ended)
  | .fault => some (m.stop, .ended)

/-- A step of the UART side takes a message. -/
def uartTakes : Uart.Transmit.Action → Bool
  | .take => true
  | _ => false

/-- A step of the keyboard side takes a message. -/
def hidTakes : Usb.HidTasks.Action → Bool
  | .take => true
  | _ => false

/-- The messages that a step of the keyboard side posts. -/
def hidPosted (s : Hid) : Usb.HidTasks.Action → List ℕ
  | .post => s.readTsk.hand
  | _ => []

variable (wild : KeyBuf → KeyBuf)

/-- One step. -/
def Machine.step (m : Machine) : Action → Option (Machine × Event)
  | .uartContextInit H mem seen =>
    match m.uart with
    | some _ => none
    | none => m.settle (fun s =>
        let mailbox := (mailboxCreate m.mqUart).map fun msg => { msg with p := seen msg.p }
        ({ m with uart := some { s with mailbox := mailbox } }, .openUart))
        (Uart.Transmit.uartContextInit H mem)
  | .hidContextInit H mem seen =>
    match m.uart, m.hid with
    | some _, none => m.settle (fun s =>
        let mailbox := (mailboxCreate m.mqHid).map seen
        ({ m with hid := some { s with mailbox := mailbox } }, .openHid))
        (Usb.HidTasks.hidContextInit H mem)
    | _, _ => none
  | .uart a =>
    match m.uart with
    | some s => m.settle (fun (s', es) =>
        ({ m with uart := some s' }, .uart (uartTakes a) (posted es).length)) (s.step a)
    | none => none
  | .hid a =>
    match m.hid with
    | some s => m.settle (fun (s', _) =>
        ({ m with hid := some s' }, .hid (hidTakes a) (hidPosted s a).length)) (s.step wild a)
    | none => none
  | .stop => some (m.stop, .ended)

/-- The message that `uart_send_tsk` takes. -/
def Machine.takenUart (m : Machine) : Action → Option Message
  | .uart .take => m.uart.bind fun s =>
    match s.sendTsk with
    | .pend => s.mailbox.head?
    | _ => none
  | _ => none

/-- The message that `hid_data_tsk` takes. -/
def Machine.takenHid (m : Machine) : Action → Option ℕ
  | .hid .take => m.hid.bind fun s =>
    match s.dataTsk with
    | .pend => s.mailbox.head?
    | _ => none
  | _ => none

/-- The machine with the number of its process and the records of the queues. -/
structure Watched where
  machine : Machine
  now : ℕ
  uart : Record
  hid : Record

/-- The record of a step to `m`. -/
def Watched.after (w : Watched) (m : Machine) : Event → Watched
  | .openUart => { w with machine := m, uart := w.uart.opened }
  | .openHid => { w with machine := m, hid := w.hid.opened }
  | .uart took n => { w with machine := m, uart := w.uart.stepped w.now took n }
  | .hid took n => { w with machine := m, hid := w.hid.stepped w.now took n }
  | .ended => { w with machine := m, now := w.now + 1 }

/-- One step with its record, for runs. -/
def watch (w : Watched) (a : Action) : Option Watched :=
  (w.machine.step wild a).map fun (m, e) => w.after m e

/-- Before the first process, without queues. -/
def start : Watched := ⟨⟨none, none, none, none⟩, 0, ⟨[], false⟩, ⟨[], false⟩⟩

/-- **A message taken is the process's own**: this process has posted it, and it points to a buffer.
-/
def OwnMessages (w : Watched) (a : Action) : Prop :=
  (∀ msg ∈ w.machine.takenUart a, w.uart.tags.head? = some w.now ∧ msg.p < uartSendBufNum) ∧
    ∀ b ∈ w.machine.takenHid a, w.hid.tags.head? = some w.now ∧ b < hidBufNum

/-- No message is taken from a queue in which a process has found messages when it opened it. -/
def NoneLeft (w : Watched) (a : Action) : Prop :=
  ((w.machine.takenUart a).isSome → w.uart.found = false) ∧
    ((w.machine.takenHid a).isSome → w.hid.found = false)

instance (w : Watched) (a : Action) : Decidable (OwnMessages w a) :=
  inferInstanceAs (Decidable ((∀ msg ∈ w.machine.takenUart a, _) ∧ ∀ b ∈ w.machine.takenHid a, _))

/-! ### The queues and their records -/

/-- A queue, with the messages `mailbox` if the process has it open, and its record. -/
def Kept {μ : Type} (now : ℕ) (r : Record) (mailbox mq : Option (List μ)) : Prop :=
  match mailbox with
  | none => r.Waiting now ∧ r.tags.length = (mailboxCreate mq).length
  | some l => r.Running now ∧ r.tags.length = l.length

section

variable {μ : Type} {now : ℕ} {r : Record} {mailbox mq : Option (List μ)} {l l' : List μ}

theorem Kept.ended (h : Kept now r mailbox mq) : Kept (now + 1) r none (mailbox.or mq) := by
  cases mailbox with
  | none => exact ⟨h.1.ended, h.2⟩
  | some l => exact ⟨h.1.ended, h.2⟩

theorem Kept.opened (h : Kept now r none mq) (hl : l.length = (mailboxCreate mq).length) :
    Kept now r.opened (some l) mq :=
  ⟨h.1.opened, h.2.trans hl.symm⟩

theorem Kept.stepped (h : Kept now r (some l) mq) {took : Bool} (hf : took → r.found = false)
    {new : List μ} (hl : l' = (if took then l.tail else l) ++ new) :
    Kept now (r.stepped now took new.length) (some l') mq := by
  refine ⟨h.1.stepped hf _, ?_⟩
  rw [Record.length_stepped, h.2, hl]
  cases took <;> simp

/-- The queue has no message if the process has found none and posted none. -/
theorem Kept.nil (h : Kept now r.opened (some l) mq) (hf : r.opened.found = false) : l = [] := by
  rw [← List.length_eq_zero_iff, ← h.2]
  simp [Record.opened, Record.opened_eq_false hf]

/-- **The message at the head** is the process's own exactly if none was found. -/
theorem Kept.head_iff (h : Kept now r (some l) mq) {msg : μ} (hm : l.head? = some msg) :
    r.found = false ↔ r.tags.head? = some now := by
  refine h.1.head_iff fun hnil => ?_
  have hl : l.length = 0 := by rw [← h.2, hnil, List.length_nil]
  rw [List.eq_nil_of_length_eq_zero hl] at hm
  cases hm

end

/-! ### The steps of the two sides -/

section

variable {wild : KeyBuf → KeyBuf} {s s' : Hid} {a : Usb.HidTasks.Action}
    {es : List Usb.HidTasks.Event}

theorem mailbox_giveBack {b : ℕ} (he : Usb.HidTasks.giveBack b s = .next s') :
    s'.mailbox = s.mailbox := by
  obtain ⟨H, -, hn⟩ := Outcome.bind_eq_next.mp he
  cases hn
  rfl

theorem mailbox_produce (he : Usb.HidTasks.produce s = .next (s', es)) :
    s'.mailbox = s.mailbox := by
  obtain ⟨x, -, hn⟩ := Outcome.bind_eq_next.mp he
  cases hn
  rfl

/-- What a step of the keyboard side does to its queue. -/
theorem hid_mailbox (he : s.step wild a = .next (s', es)) :
    s'.mailbox = (if hidTakes a then s.mailbox.tail else s.mailbox) ++ hidPosted s a := by
  cases a with
  | openHid product =>
    simp only [Hid.step] at he
    split at he <;> cases he
    exact (List.append_nil _).symm
  | test =>
    simp only [Hid.step] at he
    split at he
    · split_ifs at he <;> cases he <;> exact (List.append_nil _).symm
    · cases he
  | produce =>
    simp only [Hid.step] at he
    split at he
    · rw [mailbox_produce he]
      exact (List.append_nil _).symm
    · cases he
  | read k =>
    simp only [Hid.step] at he
    split at he <;> cases he
    exact (List.append_nil _).symm
  | readFail =>
    simp only [Hid.step] at he
    split at he
    · obtain ⟨t, ht, hn⟩ := Outcome.bind_eq_next.mp he
      cases hn
      exact (mailbox_giveBack ht).trans (List.append_nil _).symm
    · cases he
  | post =>
    simp only [Hid.step] at he
    split at he
    · rename_i b hb
      split_ifs at he
      cases he
      simp [hidTakes, hidPosted, hb, Usb.HidTasks.ReadTsk.hand]
    · cases he
  | take =>
    simp only [Hid.step] at he
    split at he
    · rename_i b rest hd hm
      cases he
      simp [hidTakes, hidPosted, hm]
    · cases he
  | silence timer =>
    simp only [Hid.step] at he
    split at he <;> cases he
    exact (List.append_nil _).symm
  | handle =>
    simp only [Hid.step] at he
    split at he <;> cases he
    exact (List.append_nil _).symm
  | recycle =>
    simp only [Hid.step] at he
    split at he
    · obtain ⟨t, ht, hn⟩ := Outcome.bind_eq_next.mp he
      cases hn
      exact (mailbox_giveBack ht).trans (List.append_nil _).symm
    · cases he

end

theorem leftOf_eq (s : Tx) (a : Uart.Transmit.Action) :
    leftOf s a = if uartTakes a then s.mailbox.tail else s.mailbox := by
  cases a <;> rfl

/-- **The invariant**: of the queues, and that the messages point to buffers as long as none was
found. -/
structure Sound (w : Watched) : Prop where
  uart : Kept w.now w.uart (w.machine.uart.map Tx.mailbox) w.machine.mqUart
  hid : Kept w.now w.hid (w.machine.hid.map Hid.mailbox) w.machine.mqHid
  pointed : ∀ s, w.machine.uart = some s →
    ∃ P, Pointed P s ∧ (w.uart.found = false → ∀ msg ∈ s.mailbox, P msg.p)
  owned : ∀ s, w.machine.hid = some s → w.hid.found = false → ∃ free, Usb.HidTasks.Owned s free

section

variable {wild : KeyBuf → KeyBuf} {w w' : Watched} {a : Action}

theorem sound_start : Sound start where
  uart := ⟨Record.waiting_start 0, rfl⟩
  hid := ⟨Record.waiting_start 0, rfl⟩
  pointed := fun s hs => by cases hs
  owned := fun s hs => by cases hs

theorem Sound.ended (h : Sound w) : Sound (w.after w.machine.stop .ended) where
  uart := h.uart.ended
  hid := h.hid.ended
  pointed := fun s hs => by cases hs
  owned := fun s hs => by cases hs

/-- A piece of code of the process: it ends with a value, or ends the process. -/
theorem Sound.settle {β : Type} (h : Sound w) {f : β → Machine × Event} {o : Outcome β}
    {m : Machine} {e : Event} (he : w.machine.settle f o = some (m, e))
    (hf : ∀ b, o = .next b → f b = (m, e) → Sound (w.after m e)) : Sound (w.after m e) := by
  cases o with
  | next b => exact hf b rfl (Option.some.inj he)
  | blocked => cases he
  | exit =>
    cases he
    exact h.ended
  | fault =>
    cases he
    exact h.ended

theorem Sound.openUart (h : Sound w) (hu : w.machine.uart = none)
    {H : Heap Uart.Transmit.Addr Owner} {mem : ℕ → UartSendFormat} {s : Tx}
    (hs : Uart.Transmit.uartContextInit H mem = .next s) (f : Message → Message) :
    Sound (w.after { w.machine with
      uart := some { s with mailbox := (mailboxCreate w.machine.mqUart).map f } } .openUart) := by
  have hk := h.uart
  rw [hu] at hk
  have hopen := hk.opened (l := (mailboxCreate w.machine.mqUart).map f) (by simp)
  refine ⟨hopen, h.hid, fun t ht => ?_, h.owned⟩
  cases ht
  refine ⟨_, pointed_init hs _, fun hf msg hmsg => ?_⟩
  rw [hopen.nil hf] at hmsg
  cases hmsg

theorem Sound.openHid (h : Sound w) (hu : w.machine.hid = none) {H : Heap Usb.HidTasks.Addr Owner}
    {mem : ℕ → HidFormat} {s : Hid} (hs : Usb.HidTasks.hidContextInit H mem = .next s) (f : ℕ → ℕ) :
    Sound (w.after { w.machine with
      hid := some { s with mailbox := (mailboxCreate w.machine.mqHid).map f } } .openHid) := by
  have hk := h.hid
  rw [hu] at hk
  have hopen := hk.opened (l := (mailboxCreate w.machine.mqHid).map f) (by simp)
  refine ⟨h.uart, hopen, h.pointed, fun t ht hf => ?_⟩
  cases ht
  have hnil : s.mailbox = [] := by
    obtain ⟨H', -, hi⟩ := Outcome.bind_eq_next.mp hs
    cases hi
    rfl
  rw [hopen.nil hf, ← hnil]
  exact ⟨_, Usb.HidTasks.owned_start hs⟩

theorem Sound.uartStep (h : Sound w) {s s' : Tx} {a : Uart.Transmit.Action}
    {es : List Uart.Transmit.Event} (hu : w.machine.uart = some s) (he : s.step a = .next (s', es))
    (hg : uartTakes a → w.uart.found = false) :
    Sound (w.after { w.machine with uart := some s' }
      (.uart (uartTakes a) (posted es).length)) := by
  obtain ⟨P, hp, hown⟩ := h.pointed s hu
  obtain ⟨P', hP', hl⟩ := hp.step (fun ha msg hmsg => by
    subst ha
    exact hown (hg rfl) msg (List.mem_of_mem_head? hmsg)) he
  have hk := h.uart
  rw [hu] at hk
  refine ⟨hk.stepped hg (hl.mailbox.trans (by rw [leftOf_eq])), h.hid, fun t ht => ?_, h.owned⟩
  cases ht
  refine ⟨P', hl.pointed, fun hf msg hmsg => ?_⟩
  rw [Watched.after, Record.stepped_found] at hf
  rw [hl.mailbox] at hmsg
  rcases List.mem_append.mp hmsg with hmsg | hmsg
  · refine hP' _ (hown hf msg ?_)
    rw [leftOf_eq] at hmsg
    split_ifs at hmsg
    · exact List.mem_of_mem_tail hmsg
    · exact hmsg
  · exact hl.own msg hmsg

theorem Sound.hidStep (h : Sound w) {s s' : Hid} {a : Usb.HidTasks.Action}
    {es : List Usb.HidTasks.Event} (hu : w.machine.hid = some s)
    (he : s.step wild a = .next (s', es)) (hg : hidTakes a → w.hid.found = false) :
    Sound (w.after { w.machine with hid := some s' }
      (.hid (hidTakes a) (hidPosted s a).length)) := by
  have hk := h.hid
  rw [hu] at hk
  refine ⟨h.uart, hk.stepped hg (hid_mailbox he), h.pointed, fun t ht hf => ?_⟩
  cases ht
  rw [Watched.after, Record.stepped_found] at hf
  obtain ⟨free, hfree⟩ := h.owned s hu hf
  obtain ⟨free', hc⟩ := Usb.HidTasks.step_change hfree he
  exact ⟨free', hfree.change hc⟩

/-- A step of `uart_send_tsk` that takes a message. -/
theorem isSome_takenUart {s s' : Tx} {b : Uart.Transmit.Action} {es : List Uart.Transmit.Event}
    (hu : w.machine.uart = some s) (he : s.step b = .next (s', es)) (hb : uartTakes b) :
    (w.machine.takenUart (.uart b)).isSome := by
  cases b <;> try cases hb
  simp only [Tx.step] at he
  split at he
  · rename_i msg rest hs hm
    simp [Machine.takenUart, hu, hs, hm]
  · cases he

/-- A step of `hid_data_tsk` that takes a message. -/
theorem isSome_takenHid {s s' : Hid} {b : Usb.HidTasks.Action} {es : List Usb.HidTasks.Event}
    (hu : w.machine.hid = some s) (he : s.step wild b = .next (s', es)) (hb : hidTakes b) :
    (w.machine.takenHid (.hid b)).isSome := by
  cases b <;> try cases hb
  simp only [Hid.step] at he
  split at he
  · rename_i x rest hs hm
    simp [Machine.takenHid, hu, hs, hm]
  · cases he

/-- **The invariant is kept** by the steps that take no message found in a queue. -/
theorem sound_watch (h : Sound w) (hg : NoneLeft w a) (he : watch wild w a = some w') :
    Sound w' := by
  obtain ⟨⟨m, e⟩, hstep, rfl⟩ := Option.map_eq_some_iff.mp he
  cases a with
  | uartContextInit H mem seen =>
    simp only [Machine.step] at hstep
    split at hstep
    · cases hstep
    · rename_i hu
      refine h.settle hstep fun s hs hf => ?_
      cases hf
      exact h.openUart hu hs _
  | hidContextInit H mem seen =>
    simp only [Machine.step] at hstep
    split at hstep
    · rename_i hu
      refine h.settle hstep fun s hs hf => ?_
      cases hf
      exact h.openHid hu hs _
    · cases hstep
  | uart b =>
    simp only [Machine.step] at hstep
    split at hstep
    · rename_i s hu
      refine h.settle hstep fun r hs hf => ?_
      cases hf
      exact h.uartStep hu hs fun hb => hg.1 (isSome_takenUart hu hs hb)
    · cases hstep
  | hid b =>
    simp only [Machine.step] at hstep
    split at hstep
    · rename_i s hu
      refine h.settle hstep fun r hs hf => ?_
      cases hf
      exact h.hidStep hu hs fun hb => hg.2 (isSome_takenHid hu hs hb)
    · cases hstep
  | stop =>
    cases hstep
    exact h.ended

/-- The message taken is at the head of the queue. -/
theorem takenUart_eq {msg : Message} (hm : w.machine.takenUart a = some msg) :
    ∃ s, w.machine.uart = some s ∧ s.mailbox.head? = some msg := by
  unfold Machine.takenUart at hm
  split at hm
  · obtain ⟨s, hs, hm⟩ := Option.bind_eq_some_iff.mp hm
    split at hm
    · exact ⟨s, hs, hm⟩
    · cases hm
  · cases hm

theorem takenHid_eq {b : ℕ} (hm : w.machine.takenHid a = some b) :
    ∃ s, w.machine.hid = some s ∧ s.mailbox.head? = some b := by
  unfold Machine.takenHid at hm
  split at hm
  · obtain ⟨s, hs, hm⟩ := Option.bind_eq_some_iff.mp hm
    split at hm
    · exact ⟨s, hs, hm⟩
    · cases hm
  · cases hm

theorem Sound.own_uart (h : Sound w) {msg : Message} (hm : w.machine.takenUart a = some msg) :
    w.uart.found = false ↔ w.uart.tags.head? = some w.now ∧ msg.p < uartSendBufNum := by
  obtain ⟨s, hu, hhead⟩ := takenUart_eq hm
  have hk := h.uart
  rw [hu] at hk
  rw [← hk.head_iff hhead]
  refine ⟨fun hf => ⟨hf, ?_⟩, And.left⟩
  obtain ⟨P, hp, hown⟩ := h.pointed s hu
  exact hp.lt _ (hown hf msg (List.mem_of_mem_head? hhead))

theorem Sound.own_hid (h : Sound w) {b : ℕ} (hm : w.machine.takenHid a = some b) :
    w.hid.found = false ↔ w.hid.tags.head? = some w.now ∧ b < hidBufNum := by
  obtain ⟨s, hu, hhead⟩ := takenHid_eq hm
  have hk := h.hid
  rw [hu] at hk
  rw [← hk.head_iff hhead]
  refine ⟨fun hf => ⟨hf, ?_⟩, And.left⟩
  obtain ⟨free, hfree⟩ := h.owned s hu hf
  refine hfree.lt ?_
  exact List.mem_append_right _ (List.mem_append_left _ (List.mem_of_mem_head? hhead))

/-- **One step**: the messages it takes are the process's own exactly if none was found. -/
theorem Sound.own_iff (h : Sound w) (a : Action) : NoneLeft w a ↔ OwnMessages w a := by
  unfold NoneLeft OwnMessages
  refine and_congr ?_ ?_
  · cases hm : w.machine.takenUart a with
    | none => simp
    | some msg => simpa using h.own_uart hm
  · cases hm : w.machine.takenHid a with
    | none => simp
    | some b => simpa using h.own_hid hm

/-- **No message outlives its process**, in the messages that are taken, exactly in the runs in
which no message is taken from a queue where a process has found messages when it opened it. -/
theorem ownMessages_iff (wild : KeyBuf → KeyBuf) (as : List Action) :
    Steps (watch wild) OwnMessages start as ↔ Steps (watch wild) NoneLeft start as :=
  (steps_iff_of_inv (fun _ _ _ h hg he => sound_watch h hg he) (fun _ a h => h.own_iff a)
    sound_start).symm

end

open MultiPortConvertor.Uart.Dispose MultiPortConvertor.Uart.Release

/-- A notification is posted and then more are queued than there are buffers, so that the process
ends; the next process takes the message. -/
def leftBehind : List Action :=
  [.uartContextInit heapInit memInit id, .uart (.dispose (hidInsertNtf 1)), .uart .pollLock,
    .uart .pollEntry, .uart .pollUnlock] ++
  List.replicate uartSendBufNum (.uart (.dispose (hidInsertNtf 1))) ++
  [.uartContextInit heapInit memInit fun _ => uartSendBufNum, .uart .take]

/-- The message is not one of the process that takes it. -/
theorem leftBehind_taken : ¬ Steps (watch id) OwnMessages start leftBehind ∧
    (exec (watch id) start leftBehind).map (fun w => (w.now, w.machine.uart.map Tx.sendTsk)) =
      some (1, some (.write ⟨uartSendBufNum, 9⟩ 0)) := by
  decide +kernel

end MultiPortConvertor.App.Incarnations
