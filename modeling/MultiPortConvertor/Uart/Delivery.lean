import MultiPortConvertor.Uart.Release

/-! # What the send task writes

A message carries only a pointer to its buffer. The record of a run keeps with each message on its
way the frame that stood in the buffer when it was posted, whether the buffer has been given back or
handed out since, and the bytes written so far. As long as no buffer is given back that an unwritten
message names, and each call of `write` takes the rest of the frame, the send task writes exactly
the frames posted (`steps_deliver`). Neither `uart_poll_tsk` nor `uart_send_tsk` looks at the
messages on their way before it gives a buffer back. -/

namespace MultiPortConvertor.Uart.Delivery

open MultiPortConvertor.Lib.Bytes MultiPortConvertor.Lib.Outcomes MultiPortConvertor.Lib.Runs
open MultiPortConvertor.Tool.IntrusiveList MultiPortConvertor.Tool.BufFactory
open MultiPortConvertor.Uart.Format MultiPortConvertor.Uart.Dispose MultiPortConvertor.Uart.Parse
open MultiPortConvertor.Uart.Transmit MultiPortConvertor.Uart.TransmitQueues
open MultiPortConvertor.Uart.Ownership MultiPortConvertor.Uart.Refinement
open MultiPortConvertor.Uart.Release

/-! ### The record of a run -/

/-- A message on its way, with the frame posted, and whether its buffer was given back or handed out
since. -/
structure Ticket where
  msg : Message
  frame : List UInt8
  reused : Bool
  deriving DecidableEq

/-- The event gives the buffer back or hands it out. -/
def touches (b : ℕ) : Event → Bool
  | .produce c => c = b
  | .recycle c => c = b
  | _ => false

def Ticket.note (es : List Event) (t : Ticket) : Ticket :=
  { t with reused := t.reused || es.any (touches t.msg.p) }

/-- The messages posted. -/
def posts (es : List Event) : List Ticket := es.filterMap fun
  | .post msg frame => some ⟨msg, frame, false⟩
  | _ => none

/-- The bytes written. -/
def bytesWritten (es : List Event) : List UInt8 := es.flatMap fun
  | .wrote bytes => bytes
  | _ => []

/-- A state with its record: the tickets of the messages in the queue, the one of the message in the
hands of the send task, and the bytes written for it. -/
structure Watched where
  tx : Tx
  queue : List Ticket
  hand : Option Ticket
  sent : List UInt8

def watched (s : Tx) : Watched := ⟨s, [], none, []⟩

/-- The message taken, if one is. -/
def Watched.turn (w : Watched) : Action → Watched
  | .take => { w with queue := w.queue.tail, hand := w.queue.head?, sent := [] }
  | _ => w

/-- The record after a step. -/
def Watched.after (w : Watched) (a : Action) (s : Tx) (es : List Event) : Watched where
  tx := s
  queue := (w.turn a).queue.map (.note es) ++ posts es
  hand := (w.turn a).hand.map (.note es)
  sent := (w.turn a).sent ++ bytesWritten es

/-- The next state with its record. -/
def watch (w : Watched) (a : Action) : Option Watched :=
  (w.tx.step a).toOption.map fun x => w.after a x.1 x.2

/-- **Delivery.** The buffer of a message taken was neither given back nor handed out since the post
and holds the frame posted; when the send task has done with a message, it has written this frame.
-/
def Delivers (w : Watched) (a : Action) : Prop :=
  (a = .take → ∀ msg rest, w.tx.sendTsk = .pend → w.tx.mailbox = msg :: rest →
    ∃ t, w.queue.head? = some t ∧ t.msg = msg ∧ t.reused = false ∧
      slice (w.tx.mem msg.p).cmd 0 msg.dataLen = t.frame) ∧
  (a = .test → ∀ msg, w.tx.sendTsk = .test msg →
    ∃ t, w.hand = some t ∧ t.msg = msg ∧ w.sent = t.frame)

/-! ### The condition -/

/-- The entry is acknowledged, or has been sent often enough. -/
def Over (poll : UartPoll) : Prop :=
  poll.type = 1 ∧ poll.times ≠ 0 ∧
    (poll.freeFlag ≠ 0 ∨ (poll.delay + 5) % 2 ^ 32 ≥ 500 ∧ (poll.times + 1) % 2 ^ 32 > 3)

instance (poll : UartPoll) : Decidable (Over poll) :=
  inferInstanceAs (Decidable (_ ∧ _ ∧ (_ ∨ _ ∧ _)))

/-- The buffer that a step is about to give back. -/
def givesBack (s : Tx) : Action → Option ℕ
  | .pollEntry =>
    match s.pollTsk with
    | .pass (some p) => (s.heap p).owner.filter fun b => Over (s.mem b).poll
    | _ => none
  | .test =>
    match s.sendTsk with
    | .test msg => if (s.mem msg.p).poll.freeFlag ≠ 0 then some msg.p else none
    | _ => none
  | _ => none

/-- The messages that are not written yet. -/
def unwritten (s : Tx) : List Message :=
  (match s.sendTsk with
    | .write msg _ => [msg]
    | _ => []) ++ s.mailbox

/-- **The step does not get in the way of a message**: it finds no flag of a linked entry, gives no
buffer back that an unwritten message names, and if it writes, it writes all that is left. -/
structure Careful (s : Tx) (a : Action) : Prop where
  linked : ¬ ReleasesLinked s a
  named : ∀ b, givesBack s a = some b → ∀ msg ∈ unwritten s, msg.p ≠ b
  whole : ∀ msg nhasSend nsend, s.sendTsk = .write msg nhasSend → a = .write nsend →
    nsend = msg.dataLen - nhasSend

instance (s : Tx) (a : Action) : Decidable (Careful s a) :=
  have whole : Decidable (∀ msg nhasSend nsend, s.sendTsk = .write msg nhasSend →
      a = .write nsend → nsend = msg.dataLen - nhasSend) :=
    match a, h : s.sendTsk with
    | .write nsend, .write msg nhasSend =>
      decidable_of_iff (nsend = msg.dataLen - nhasSend) (by simp)
    | .write _, .pend | .write _, .test _ => isTrue (by simp)
    | .dispose _, _ | .recv _, _ | .pollLock, _ | .pollEntry, _ | .pollUnlock, _ | .take, _
    | .test, _ => isTrue (by simp)
  decidable_of_iff (¬ ReleasesLinked s a ∧ (∀ b ∈ givesBack s a, ∀ msg ∈ unwritten s, msg.p ≠ b) ∧
      ∀ msg nhasSend nsend, s.sendTsk = .write msg nhasSend → a = .write nsend →
        nsend = msg.dataLen - nhasSend)
    ⟨fun h => ⟨h.1, h.2.1, h.2.2⟩, fun h => ⟨h.linked, h.named, h.whole⟩⟩

theorem verdict_drop_iff {poll : UartPoll} : verdict poll = .drop ↔ Over poll := by
  unfold verdict Over
  split_ifs <;> simp_all

/-! ### The steps of the queues, message by message -/

section

variable {q q' : Queues} {a : Action} {es : List Event} {b : ℕ}

theorem enqueue_messages {fill : UartCmdFormat → UartCmdFormat} {type : ℕ}
    (h : q.enqueue fill type = .next (q', es)) : q'.sendTsk = q.sendTsk ∧ q'.mailbox = q.mailbox ∧
      ∃ b, es = [.produce b] := by
  obtain ⟨b, free, -, rfl, rfl⟩ := Queues.enqueue_next h
  exact ⟨rfl, rfl, b, rfl⟩

theorem treat_messages {rest : List ℕ} (h : q.treat b rest = .next (q', es)) :
    q'.sendTsk = q.sendTsk ∧ q'.mailbox = q.mailbox ++ (posts es).map Ticket.msg ∧
      bytesWritten es = [] := by
  obtain ⟨poll, -, rfl, rfl⟩ | ⟨poll, -, rfl, rfl⟩ | ⟨poll, -, rfl, rfl⟩ | ⟨-, rfl, rfl⟩ :=
    Queues.treat_next h
  · exact ⟨rfl, rfl, rfl⟩
  · exact ⟨rfl, rfl, rfl⟩
  · exact ⟨rfl, (List.append_nil _).symm, rfl⟩
  · exact ⟨rfl, (List.append_nil _).symm, rfl⟩

/-- The send task stands still while the others work, and messages are appended to the queue. -/
theorem step_messages (h : q.step a = .next (q', es)) (ht : a ≠ .take) (hw : ∀ n, a ≠ .write n)
    (hx : a ≠ .test) : q'.sendTsk = q.sendTsk ∧
      q'.mailbox = q.mailbox ++ (posts es).map Ticket.msg ∧ bytesWritten es = [] := by
  cases a with
  | dispose info =>
    obtain ⟨⟨r, es'⟩, hr, hn⟩ := Outcome.bind_eq_next.mp h
    cases hn
    obtain ⟨hs, hm, b, rfl⟩ := enqueue_messages hr
    exact ⟨hs, hm.trans (List.append_nil _).symm, rfl⟩
  | recv p =>
    cases p with
    | dropped =>
      cases h
      exact ⟨rfl, (List.append_nil _).symm, rfl⟩
    | respond r =>
      obtain ⟨hs, hm, b, rfl⟩ := enqueue_messages h
      exact ⟨hs, hm.trans (List.append_nil _).symm, rfl⟩
    | acknowledge sn reply =>
      obtain ⟨rfl, rfl | ⟨b, -, rfl⟩⟩ := Queues.acknowledge_next h
      · exact ⟨rfl, (List.append_nil _).symm, rfl⟩
      · exact ⟨rfl, (List.append_nil _).symm, rfl⟩
  | pollLock | pollUnlock =>
    simp only [Queues.step] at h
    split_ifs at h
    cases h
    exact ⟨rfl, (List.append_nil _).symm, rfl⟩
  | pollEntry =>
    simp only [Queues.step] at h
    split_ifs at h
    split at h
    · cases h
    · exact treat_messages h
  | take => exact absurd rfl ht
  | write n => exact absurd rfl (hw n)
  | test => exact absurd rfl hx

theorem take_next (h : q.step .take = .next (q', es)) : ∃ msg rest, q.sendTsk = .pend ∧
    q.mailbox = msg :: rest ∧ q'.sendTsk = .loop msg 0 ∧ q'.mailbox = rest ∧ es = [] := by
  simp only [Queues.step] at h
  split at h
  · rename_i msg rest hs hm
    cases h
    exact ⟨msg, rest, hs, hm, rfl, rfl, rfl⟩
  · cases h

/-- A write of all that is left of a message. -/
theorem write_next {msg : Message} (ht : q.sendTsk = .write msg 0)
    (h : q.step (.write msg.dataLen) = .next (q', es)) : q'.sendTsk = .test msg ∧
      q'.mailbox = q.mailbox ∧ posts es = [] ∧
        bytesWritten es = slice (q.mem msg.p).cmd 0 msg.dataLen := by
  simp only [Queues.step, ht, Queues.sendWrite] at h
  split_ifs at h with h0 hle
  · cases h
    have hz : msg.dataLen = 0 := by omega
    rw [hz]
    exact ⟨rfl, rfl, rfl, rfl⟩
  · cases h
    refine ⟨?_, rfl, rfl, ?_⟩
    · simp [SendTsk.loop]
    · simp [bytesWritten]

theorem test_next (h : q.step .test = .next (q', es)) : q'.sendTsk = .pend ∧
    q'.mailbox = q.mailbox ∧ posts es = [] := by
  simp only [Queues.step] at h
  split at h
  · split_ifs at h
    · cases h
      exact ⟨rfl, rfl, rfl⟩
    · cases h
      exact ⟨rfl, rfl, rfl⟩
  · cases h

end

/-! ### The messages stay good -/

/-- **A message that can still be written**: its buffer is in use, untouched, and holds the frame.
-/
structure Fresh (k : Books) (t : Ticket) : Prop where
  used : t.msg.p ∉ k.free
  kept : t.reused = false
  frame : slice (k.mem t.msg.p).cmd 0 t.msg.dataLen = t.frame

section

variable {k k' : Books} {c : Option Message} {es : List Event} {t : Ticket}

@[simp] theorem note_msg (es : List Event) (t : Ticket) : (t.note es).msg = t.msg := rfl

@[simp] theorem note_frame (es : List Event) (t : Ticket) : (t.note es).frame = t.frame := rfl

theorem note_nil (t : Ticket) : t.note [] = t := by simp [Ticket.note]

/-- A change of the poll fields, with the same buffers free. -/
theorem Fresh.setPoll (h : Fresh k t) (b : ℕ) (poll : UartPoll) (list : List ℕ)
    (messages : List Message) : Fresh ⟨k.free, list, setPoll k.mem b poll, messages⟩ t :=
  ⟨h.used, h.kept, by rw [setPoll_cmd]; exact h.frame⟩

/-- Another buffer is given back. -/
theorem Fresh.give {free list : List ℕ} {mem : ℕ → UartSendFormat} {messages : List Message}
    (h : Fresh ⟨free, list, mem, messages⟩ t) {b : ℕ} (hb : t.msg.p ≠ b) (list' : List ℕ) (x : ℕ)
    (messages' : List Message) :
    Fresh ⟨free ++ [b], list', TransmitQueues.setPoll mem x .cleared, messages'⟩
      (t.note [.recycle b]) := by
  refine ⟨?_, ?_, ?_⟩
  · simpa [hb] using h.used
  · simp [Ticket.note, touches, h.kept, hb.symm]
  · rw [note_msg, setPoll_cmd]
    exact h.frame

/-- **A fresh message stays fresh** in a step that does not give its buffer back. -/
theorem Fresh.change (h : Fresh k t) (hc : Change c k es k')
    (hn : .recycle t.msg.p ∉ es) : Fresh k' (t.note es) := by
  have keep : es.any (touches t.msg.p) = false → t.note es = t := by
    intro he
    simp [Ticket.note, he]
  cases hc with
  | idle => rwa [note_nil]
  | wrote => rwa [keep rfl]
  | enqueue b type fill free list mem messages =>
    have hne : t.msg.p ≠ b := fun he => h.used (by simp [he])
    refine ⟨fun hm => h.used (List.mem_cons_of_mem _ hm), ?_, ?_⟩
    · simp [Ticket.note, touches, h.kept, hne.symm]
    · simpa [hne] using h.frame
  | mark b _ hb =>
    rw [note_nil]
    exact h.setPoll b _ _ _
  | sendLast b l r free mem messages poll hv =>
    rw [keep rfl]
    exact h.setPoll b poll _ _
  | send b _ poll hb hv =>
    rw [keep rfl]
    exact h.setPoll b poll _ _
  | keep b _ poll hb hv =>
    rw [note_nil]
    exact h.setPoll b poll _ _
  | drop b l r free mem messages hv =>
    exact h.give (fun he => hn (by simp [he])) _ _ _
  | recycle msg free list mem messages hf =>
    exact h.give (fun he => hn (by simp [he])) _ _ _
  | done =>
    rw [note_nil]
    exact ⟨h.used, h.kept, h.frame⟩

/-- The message of a linked buffer is fresh when it is posted. -/
theorem fresh_post {free list list' : List ℕ} {mem : ℕ → UartSendFormat}
    {messages messages' : List Message} (ho : Booked ⟨free, list, mem, messages⟩) {b : ℕ}
    (hb : b ∈ list) (poll : UartPoll) :
    Fresh ⟨free, list', setPoll mem b poll, messages'⟩
      ⟨messageOf mem b, (mem b).cmd.bytes, false⟩ :=
  ⟨ho.disjoint hb, rfl, by simp [messageOf, UartCmdFormat.bytes]⟩

/-- **A message is fresh when it is posted.** -/
theorem Fresh.posted (ho : Booked k) (hc : Change c k es k') : ∀ t ∈ posts es, Fresh k' t := by
  intro t ht
  cases hc with
  | sendLast b l r free mem messages poll hv =>
    cases List.mem_singleton.mp ht
    exact fresh_post ho (by simp) poll
  | send b _ poll hb hv =>
    cases List.mem_singleton.mp ht
    exact fresh_post ho hb poll
  | idle | wrote | enqueue | mark | keep | drop | recycle | done => cases ht

end

/-! ### The condition and the queues -/

section

variable {s : Tx} {q q' : Queues} {a : Action} {es : List Event} {b : ℕ}

theorem treat_recycle {c : ℕ} {rest : List ℕ} (h : q.treat c rest = .next (q', es))
    (hb : .recycle b ∈ es) : verdict (q.mem c).poll = .drop ∧ b = (q.mem c).buf := by
  obtain ⟨poll, -, rfl, -⟩ | ⟨poll, -, rfl, -⟩ | ⟨poll, -, rfl, -⟩ | ⟨hv, rfl, -⟩ :=
    Queues.treat_next h
  · simp at hb
  · simp at hb
  · simp at hb
  · exact ⟨hv, by simpa using hb⟩

/-- The poll task gives back a buffer whose entry is over. -/
theorem givesBack_pollEntry (hr : Rep s q) (ho : Booked q.books)
    (h : q.step .pollEntry = .next (q', es)) (hb : .recycle b ∈ es) :
    givesBack s .pollEntry = some b := by
  simp only [Queues.step] at h
  split_ifs at h with hl
  cases hq : q.rest with
  | nil =>
    rw [hq] at h
    cases h
  | cons c rest =>
    rw [hq] at h
    have hlist : q.list = q.seen ++ c :: rest := by rw [Queues.list, hq]
    have hown : (s.heap (.entry c)).owner = some c := by
      have hlists := hr.lists
      rw [hlist] at hlists
      exact hlists.owner_entry
    have hp : s.pollTsk = .pass (some (.entry c)) := by
      rw [hr.pollTsk, hl, if_pos rfl, hq]
      rfl
    obtain ⟨hv, rfl⟩ := treat_recycle h hb
    have hbuf : (q.mem c).buf = c :=
      ho.buf_of_list (k := q.books) (show c ∈ q.list by simp [hlist])
    have hover : Over (q.mem c).poll := verdict_drop_iff.mp hv
    simp only [givesBack, hp, hown, hr.mem, hbuf]
    simp [hover]

/-- Every buffer given back is the one announced. -/
theorem givesBack_of_recycle (hr : Rep s q) (ho : Booked q.books)
    (h : q.step a = .next (q', es)) (hb : .recycle b ∈ es) : givesBack s a = some b := by
  cases a with
  | dispose info =>
    obtain ⟨⟨r, es'⟩, hr', hn⟩ := Outcome.bind_eq_next.mp h
    cases hn
    obtain ⟨-, -, c, rfl⟩ := enqueue_messages hr'
    simp at hb
  | recv p =>
    cases p with
    | dropped =>
      cases h
      cases hb
    | respond r =>
      obtain ⟨-, -, c, rfl⟩ := enqueue_messages h
      simp at hb
    | acknowledge sn reply =>
      obtain ⟨rfl, -⟩ := Queues.acknowledge_next h
      simp at hb
  | pollLock | pollUnlock =>
    simp only [Queues.step] at h
    split_ifs at h
    cases h
    cases hb
  | pollEntry => exact givesBack_pollEntry hr ho h hb
  | take =>
    obtain ⟨-, -, -, -, -, -, rfl⟩ := take_next h
    cases hb
  | write n =>
    simp only [Queues.step, Queues.sendWrite] at h
    split at h
    · split_ifs at h <;> cases h <;> simp at hb
    · cases h
  | test =>
    simp only [Queues.step] at h
    split at h
    · rename_i msg ht
      split_ifs at h with hf
      · cases h
        cases List.mem_singleton.mp hb
        have hm : msg ∈ q.books.messages := by simp [Queues.books, Queues.messages, ht]
        have hbuf : (q.mem msg.p).buf = msg.p :=
          ho.buf msg.p (ho.msg msg hm) (ho.notMem_of_flag hm hf)
        unfold givesBack
        rw [hr.sendTsk, ht, hr.mem]
        exact (if_pos hf).trans (congrArg some hbuf.symm)
      · cases h
        cases hb
    · cases h

theorem unwritten_eq (hr : Rep s q) : unwritten s =
    (match q.sendTsk with
      | .write msg _ => [msg]
      | _ => []) ++ q.mailbox := by
  unfold unwritten
  rw [hr.sendTsk, hr.mailbox]

end

/-! ### Runs -/

/-- **The invariant**: the tickets are those of the messages on their way; the ones not written are
fresh, and what is written is what was posted. -/
structure Tracks (w : Watched) (q : Queues) : Prop where
  queue : w.queue.map Ticket.msg = q.mailbox
  fresh : ∀ t ∈ w.queue, Fresh q.books t
  writing : ∀ msg n, q.sendTsk = .write msg n → n = 0 ∧ w.sent = [] ∧
    ∃ t, w.hand = some t ∧ t.msg = msg ∧ Fresh q.books t
  written : ∀ msg, q.sendTsk = .test msg → ∃ t, w.hand = some t ∧ t.msg = msg ∧ w.sent = t.frame

def Tracked (w : Watched) : Prop :=
  ∃ q, Rep w.tx q ∧ Booked q.books ∧ q.Rewound ∧ Tracks w q

section

variable {w w' : Watched} {q q' : Queues} {a : Action} {es : List Event} {s' : Tx}

theorem turn_of_ne (ha : a ≠ .take) : w.turn a = w := by
  cases a <;> first | rfl | exact absurd rfl ha

theorem turn_queue_subset (w : Watched) (a : Action) : (w.turn a).queue ⊆ w.queue := by
  cases a with
  | take => exact fun _ ht => List.mem_of_mem_tail ht
  | _ => exact List.Subset.refl _

/-- No step gives back the buffer of an unwritten message. -/
theorem recycle_notMem (hr : Rep w.tx q) (ho : Booked q.books) (hg : Careful w.tx a)
    (hq : q.step a = .next (q', es)) {msg : Message} (hm : msg ∈ unwritten w.tx) :
    .recycle msg.p ∉ es := fun hb =>
  hg.named msg.p (givesBack_of_recycle hr ho hq hb) msg hm rfl

theorem fresh_after (hr : Rep w.tx q) (ho : Booked q.books) (ht : Tracks w q)
    (hg : Careful w.tx a) (hq : q.step a = .next (q', es))
    (hc : Change (q.tested a) q.books es q'.books) (s' : Tx) :
    ∀ t ∈ (w.after a s' es).queue, Fresh q'.books t := by
  intro t hm
  rcases List.mem_append.mp hm with hm | hm
  · obtain ⟨u, hu, rfl⟩ := List.mem_map.mp hm
    have huq : u ∈ w.queue := turn_queue_subset w a hu
    have hmail : u.msg ∈ q.mailbox := ht.queue ▸ List.mem_map_of_mem huq
    refine (ht.fresh u huq).change hc (recycle_notMem hr ho hg hq ?_)
    rw [unwritten_eq hr]
    exact List.mem_append_right _ hmail
  · exact Fresh.posted ho hc t hm

/-- The head of the queue goes to the hand. -/
theorem Tracks.take (ht : Tracks w q) (hq : q.step .take = .next (q', es))
    (hc : Change (q.tested .take) q.books es q'.books)
    (hfresh : ∀ t ∈ (w.after .take s' es).queue, Fresh q'.books t) :
    Tracks (w.after .take s' es) q' := by
  obtain ⟨msg, rest, hs, hm, hs', hm', rfl⟩ := take_next hq
  have hqu := ht.queue
  rw [hm] at hqu
  obtain ⟨t, ts, hts, rfl, hrest⟩ := List.map_eq_cons_iff.mp hqu
  have hft : Fresh q'.books t := by
    have := (ht.fresh t (by simp [hts])).change hc (by simp)
    rwa [note_nil] at this
  have hhand : (w.after .take s' []).hand = some t := by
    simp [Watched.after, Watched.turn, hts, note_nil]
  refine ⟨?_, hfresh, fun m n hw => ?_, fun m hx => ?_⟩
  · rw [hm', ← hrest]
    simp [Watched.after, Watched.turn, hts, posts, Function.comp_def]
  · rw [hs'] at hw
    unfold SendTsk.loop at hw
    split_ifs at hw
    cases hw
    exact ⟨rfl, rfl, t, hhand, rfl, hft⟩
  · rw [hs'] at hx
    unfold SendTsk.loop at hx
    split_ifs at hx with hz
    cases hx
    have hframe := hft.frame
    rw [show t.msg.dataLen = 0 by omega] at hframe
    exact ⟨t, hhand, rfl, hframe⟩

/-- All that is left of the message in the hand is written. -/
theorem Tracks.write {nsend : ℤ} (ht : Tracks w q) (hr : Rep w.tx q)
    (hg : Careful w.tx (.write nsend)) (hq : q.step (.write nsend) = .next (q', es))
    (hfresh : ∀ t ∈ (w.after (.write nsend) s' es).queue, Fresh q'.books t) :
    Tracks (w.after (.write nsend) s' es) q' := by
  have hturn : w.turn (.write nsend) = w := rfl
  cases hs : q.sendTsk with
  | pend => simp [Queues.step, hs] at hq
  | test msg => simp [Queues.step, hs] at hq
  | write msg n =>
    obtain ⟨rfl, hsent, t, hhand, rfl, hft⟩ := ht.writing msg n hs
    obtain rfl : nsend = t.msg.dataLen := by
      simpa using hg.whole t.msg 0 nsend (hr.sendTsk.trans hs) rfl
    obtain ⟨hs', hm', hp, hb⟩ := write_next hs hq
    refine ⟨?_, hfresh, fun m n hw => ?_, fun m hx => ?_⟩
    · rw [hm', ← ht.queue]
      simp [Watched.after, hturn, hp, Function.comp_def]
    · rw [hs'] at hw
      cases hw
    · rw [hs'] at hx
      cases hx
      refine ⟨t.note es, by simp [Watched.after, hturn, hhand], rfl, ?_⟩
      simp only [Watched.after, hturn, hsent, hb, List.nil_append, note_frame]
      exact hft.frame

/-- The send task has done with the message in the hand. -/
theorem Tracks.test (ht : Tracks w q) (hq : q.step .test = .next (q', es))
    (hfresh : ∀ t ∈ (w.after .test s' es).queue, Fresh q'.books t) :
    Tracks (w.after .test s' es) q' := by
  have hturn : w.turn .test = w := rfl
  obtain ⟨hs', hm', hp⟩ := test_next hq
  refine ⟨?_, hfresh, fun m n hw => ?_, fun m hx => ?_⟩
  · rw [hm', ← ht.queue]
    simp [Watched.after, hturn, hp, Function.comp_def]
  · rw [hs'] at hw
    cases hw
  · rw [hs'] at hx
    cases hx

/-- The send task stands still. -/
theorem Tracks.still (ht : Tracks w q) (hr : Rep w.tx q) (ho : Booked q.books)
    (hg : Careful w.tx a) (hq : q.step a = .next (q', es))
    (hc : Change (q.tested a) q.books es q'.books) (htake : a ≠ .take) (hwrite : ∀ n, a ≠ .write n)
    (htest : a ≠ .test) (hfresh : ∀ t ∈ (w.after a s' es).queue, Fresh q'.books t) :
    Tracks (w.after a s' es) q' := by
  have hturn : w.turn a = w := turn_of_ne htake
  obtain ⟨hs', hm', hb⟩ := step_messages hq htake hwrite htest
  refine ⟨?_, hfresh, fun m n hw => ?_, fun m hx => ?_⟩
  · rw [hm', ← ht.queue]
    simp [Watched.after, hturn, Function.comp_def]
  · rw [hs'] at hw
    obtain ⟨hn, hsent, t, hhand, rfl, hft⟩ := ht.writing m n hw
    have hmem : t.msg ∈ unwritten w.tx := by
      rw [unwritten_eq hr, hw]
      exact List.mem_append_left _ (List.mem_singleton_self _)
    refine ⟨hn, by simp [Watched.after, hturn, hsent, hb], t.note es, ?_, rfl,
      hft.change hc (recycle_notMem hr ho hg hq hmem)⟩
    simp [Watched.after, hturn, hhand]
  · rw [hs'] at hx
    obtain ⟨t, hhand, rfl, hsent⟩ := ht.written m hx
    refine ⟨t.note es, by simp [Watched.after, hturn, hhand], rfl, ?_⟩
    simp [Watched.after, hturn, hsent, hb]

/-- **The tickets are kept** by every careful step. -/
theorem Tracks.after (ht : Tracks w q) (hr : Rep w.tx q) (ho : Booked q.books)
    (hg : Careful w.tx a) (hq : q.step a = .next (q', es))
    (hc : Change (q.tested a) q.books es q'.books) : Tracks (w.after a s' es) q' := by
  have hfresh := fresh_after hr ho ht hg hq hc s'
  cases a with
  | take => exact ht.take hq hc hfresh
  | write nsend => exact ht.write hr hg hq hfresh
  | test => exact ht.test hq hfresh
  | dispose info | recv p | pollLock | pollEntry | pollUnlock =>
    exact ht.still hr ho hg hq hc (by simp) (by simp) (by simp) hfresh

theorem tracked_watch (h : Tracked w) (hg : Careful w.tx a) (hn : watch w a = some w') :
    Tracked w' := by
  obtain ⟨q, hr, ho, hw, ht⟩ := h
  obtain ⟨⟨s', es⟩, hs, rfl⟩ := Option.map_eq_some_iff.mp hn
  obtain ⟨q', hq, hr', ho', hw', hc⟩ :=
    step_booked hr ho hw hg.linked (Outcome.toOption_eq_some.mp hs)
  exact ⟨q', hr', ho', hw', ht.after hr ho hg hq hc⟩

theorem Tracked.delivers (h : Tracked w) (a : Action) : Delivers w a := by
  obtain ⟨q, hr, ho, hw, ht⟩ := h
  constructor
  · rintro - msg rest - hm
    have hqu := ht.queue
    rw [← hr.mailbox, hm] at hqu
    obtain ⟨t, ts, hts, rfl, -⟩ := List.map_eq_cons_iff.mp hqu
    have hf := ht.fresh t (by simp [hts])
    refine ⟨t, by rw [hts]; rfl, rfl, hf.kept, ?_⟩
    rw [hr.mem]
    exact hf.frame
  · rintro - msg hs
    exact ht.written msg (hr.sendTsk ▸ hs)

end

/-- **The frames posted are the frames written.** In a run from the start, on memory with any
contents, whose steps are all careful, whenever the send task takes a message, the buffer has been
neither given back nor handed out since the message was posted, and the bytes it writes are the
frame posted. -/
theorem steps_deliver {H : Heap Addr Owner} {mem : ℕ → UartSendFormat} {s : Tx}
    (h : uartContextInit H mem = .next s) {as : List Action}
    (hg : Steps watch (fun w a => Careful w.tx a) (watched s) as) :
    Steps watch Delivers (watched s) as := by
  refine steps_of_guarded (I := Tracked) (fun w a w' hw hg hn => tracked_watch hw hg hn)
    (fun w a hw _ => hw.delivers a) ?_ hg
  refine ⟨start mem, rep_start h, init_booked mem, fun _ => rfl, rfl, ?_, ?_, ?_⟩
  · rintro t ⟨⟩
  · rintro msg n ⟨⟩
  · rintro msg ⟨⟩

/-- A notification is answered while its message is in the queue; the poll task gives the buffer
back, and sixteen notifications later it carries another frame. -/
def answeredQueued : List Action :=
  [.dispose (hidInsertNtf 1), .pollLock, .pollEntry, .pollUnlock,
    .recv (uartProtocolParse id (hidInsertAck 0) envInit), .pollLock, .pollEntry, .pollUnlock] ++
  List.replicate 16 (.dispose (hidInsertNtf 2)) ++ [.take, .write 9]

/-- The send task writes the frame of the later notification. -/
theorem answeredQueued_stale :
    (exec watch (watched txInit) answeredQueued).map (fun w => (w.hand, w.sent)) =
      some (some ⟨⟨0, 9⟩, [0xD0, 0, 5, 0, 0, 0xA1, 0x20, 1, 0xC2], true⟩,
        [0xD0, 0, 5, 0, 16, 0xA1, 0x20, 2, 0xD3]) := by
  decide +kernel

/-- A notification is posted, written and then answered. -/
def answeredLater : List Action :=
  [.dispose (hidInsertNtf 1), .pollLock, .pollEntry, .pollUnlock, .take, .write 9, .test,
    .recv (uartProtocolParse id (hidInsertAck 0) envInit), .pollLock, .pollEntry, .pollUnlock]

/-- The theorem applied to this run. -/
theorem answeredLater_delivers : Steps watch Delivers (watched txInit) answeredLater :=
  steps_deliver uartContextInit_txInit (by decide +kernel)

end MultiPortConvertor.Uart.Delivery
