import MultiPortConvertor.Lib.Runs
import MultiPortConvertor.Tool.ClosedLists
import MultiPortConvertor.Uart.Transmit

/-! # Where the pointers of the transmit side lead

Whatever happens to the lists, the pointers of the tasks and of the messages stay in the pool: the
nodes of the free ring lead to nodes of the free ring, the entries to entries that have been linked,
and a message is for the buffer of an entry (`Pointed`). No condition on the run is needed, so this
also holds after the send task has given a buffer back that is still linked. -/

namespace MultiPortConvertor.Uart.Pointers

open MultiPortConvertor.Lib.Outcomes MultiPortConvertor.Lib.Rings
open MultiPortConvertor.Tool.IntrusiveList
open MultiPortConvertor.Tool.BufFactory MultiPortConvertor.Tool.ClosedLists
open MultiPortConvertor.Uart.Format MultiPortConvertor.Uart.Dispose MultiPortConvertor.Uart.Parse
open MultiPortConvertor.Uart.Transmit

/-- The head of `g_uart_send_list`, or an entry of `P`. -/
def InList (P : ℕ → Prop) (a : Addr) : Prop := a = .queue ∨ ∃ b, P b ∧ a = .entry b

/-- **The pointers stay in the pool**, where `P` are the buffers that have been linked. -/
structure Pointed (P : ℕ → Prop) (s : Tx) : Prop where
  lt : ∀ b, P b → b < uartSendBufNum
  buf : ∀ b, P b → (s.mem b).buf = b
  nodes : Nodes gUartSendBuf uartSendBufNum s.heap
  entries : Closed (InList P) s.heap
  owner : ∀ b, P b → (s.heap (.entry b)).owner = some b
  poll : ∀ p, s.pollTsk = .pass (some p) → InList P p
  hand : ∀ msg ∈ s.sendTsk.hand, P msg.p

/-- The messages posted in a step. -/
def posted (es : List Event) : List Message := es.filterMap fun
  | .post msg _ => some msg
  | _ => none

/-- The state after a step: its messages are appended to the queue, and are for buffers of `P`. -/
structure Leads (P : ℕ → Prop) (mailbox : List Message) (s' : Tx) (es : List Event) : Prop where
  pointed : Pointed P s'
  mailbox : s'.mailbox = mailbox ++ posted es
  own : ∀ msg ∈ posted es, P msg.p

section

variable {P : ℕ → Prop} {s s' : Tx} {es : List Event} {b : ℕ} {p : Addr} {H : Heap Addr Owner}

theorem not_inList {a : Addr} (ha : HasNode gUartSendBuf uartSendBufNum a) : ¬ InList P a := by
  obtain rfl | ⟨i, -, rfl⟩ := ha <;> rintro (h | ⟨b, -, h⟩) <;> cases h

/-- A step that leaves the heap as it is. -/
theorem Pointed.keep (h : Pointed P s) (hheap : s'.heap = s.heap)
    (hbuf : ∀ b, (s'.mem b).buf = (s.mem b).buf)
    (hpoll : ∀ p, s'.pollTsk = .pass (some p) → InList P p)
    (hhand : ∀ msg ∈ s'.sendTsk.hand, P msg.p) : Pointed P s' where
  lt := h.lt
  buf := fun b hb => (hbuf b).trans (h.buf b hb)
  nodes := hheap ▸ h.nodes
  entries := hheap ▸ h.entries
  owner := fun b hb => hheap ▸ h.owner b hb
  poll := hpoll
  hand := hhand

theorem Pointed.setPoll (h : Pointed P s) (b : ℕ) (poll : UartPoll) :
    Pointed P (s.setPoll b poll) := by
  refine h.keep rfl (fun x => ?_) h.poll h.hand
  by_cases hx : x = b
  · simp [Tx.setPoll, Tx.setMem, hx]
  · simp [Tx.setPoll, Tx.setMem, hx]

theorem Pointed.goOn (h : Pointed P s) (hp : InList P p) : Pointed P (goOn p s) :=
  h.keep rfl (fun _ => rfl) (fun r hr => h.entries.next p r hp (PollTsk.pass.inj hr)) h.hand

theorem Pointed.unlink (h : Pointed P s) (hp : InList P p) (he : unlink p s = .next s') :
    Pointed P s' ∧ s'.mailbox = s.mailbox := by
  obtain ⟨r, hr, he⟩ := Outcome.bind_eq_next.mp he
  obtain ⟨prev, hprev, he⟩ := Outcome.bind_eq_next.mp he
  obtain ⟨H, hd, he⟩ := Outcome.bind_eq_next.mp he
  rw [Outcome.ofOption_eq_next] at hr hprev hd
  cases he
  have hin : InList P r := h.entries.next p r hp hr
  obtain ⟨hc, hk⟩ := h.entries.listDel (h.entries.prev r prev hin hprev) hd
  refine ⟨⟨h.lt, h.buf, h.nodes.congr fun a ha => hk.frame a (not_inList ha), hc,
    fun b hb => ?_, ?_,
    h.hand⟩, rfl⟩
  · rw [hk.owner]
    exact h.owner b hb
  · intro q hq
    cases hq
    exact hin

theorem Pointed.release (h : Pointed P s) (hb : P b) (he : release b s = .next (s', es)) :
    Leads P s.mailbox s' es := by
  have h' := h.setPoll b .cleared
  obtain ⟨H, hrec, he⟩ := Outcome.bind_eq_next.mp he
  rw [h'.buf b hb] at hrec
  cases he
  obtain ⟨hn, hk⟩ := h'.nodes.recycle (h.lt b hb) hrec
  refine ⟨⟨h.lt, h'.buf, hn, ?_, fun c hc => ?_, h.poll, h.hand⟩, (List.append_nil _).symm, ?_⟩
  · exact h.entries.congr fun a ha => hk.frame a fun hn => not_inList hn ha
  · rw [hk.owner]
    exact h.owner c hc
  · rintro msg ⟨⟩

theorem Pointed.postEntry (h : Pointed P s) (hb : P b) (he : postEntry b s = .next (s', es)) :
    Leads P s.mailbox s' es := by
  obtain ⟨t, hm, he⟩ := Outcome.bind_eq_next.mp he
  cases he
  unfold mailboxPost at hm
  split_ifs at hm
  cases hm
  refine ⟨h.keep rfl (fun _ => rfl) h.poll h.hand, rfl, fun msg hmsg => ?_⟩
  obtain rfl := List.mem_singleton.mp hmsg
  exact hb

/-- An entry is unlinked, and its buffer given back. -/
theorem Pointed.drop (h : Pointed P s) (hp : InList P p) (hb : P b)
    (he : (Transmit.unlink p s >>= fun s => Transmit.release b s) = .next (s', es)) :
    Leads P s.mailbox s' es := by
  obtain ⟨t, hu, he⟩ := Outcome.bind_eq_next.mp he
  obtain ⟨ht, hm⟩ := h.unlink hp hu
  rw [← hm]
  exact ht.release hb he

/-- The treatment of an entry. -/
theorem Pointed.pollEntry (h : Pointed P s) (hb : P b)
    (he : pollEntry (.entry b) s = .next (s', es)) : Leads P s.mailbox s' es := by
  have hp : InList P (.entry b) := .inr ⟨b, hb, rfl⟩
  unfold Transmit.pollEntry at he
  rw [h.owner b hb, Outcome.ofOption_some, Outcome.next_bind] at he
  dsimp only at he
  split_ifs at he with h0 h1 ht hf hd hn
  · obtain ⟨⟨t, es'⟩, hpost, he⟩ := Outcome.bind_eq_next.mp he
    obtain ⟨u, hu, he⟩ := Outcome.bind_eq_next.mp he
    cases he
    have hl := (h.setPoll b _).postEntry hb hpost
    obtain ⟨hu', hm⟩ := hl.pointed.unlink hp hu
    exact ⟨hu', hm.trans hl.mailbox, hl.own⟩
  · obtain ⟨⟨t, es'⟩, hpost, he⟩ := Outcome.bind_eq_next.mp he
    cases he
    have hl := h.postEntry hb hpost
    exact ⟨(hl.pointed.setPoll b _).goOn hp, hl.mailbox, hl.own⟩
  · exact h.drop hp hb he
  · exact (h.setPoll b _).drop hp hb he
  · obtain ⟨⟨t, es'⟩, hpost, he⟩ := Outcome.bind_eq_next.mp he
    cases he
    have hl := (h.setPoll b _).postEntry hb hpost
    exact ⟨hl.pointed.goOn hp, hl.mailbox, hl.own⟩
  · cases he
    exact ⟨(h.setPoll b _).goOn hp, (List.append_nil _).symm, by rintro msg ⟨⟩⟩
  · cases he
    exact ⟨h.goOn hp, (List.append_nil _).symm, by rintro msg ⟨⟩⟩

theorem Pointed.ackLoop {sn : UInt8} (h : Pointed P s) : ∀ {fuel : ℕ} {p : Option Addr},
    ackLoop sn s fuel p = .next s' → Pointed P s' ∧ s'.mailbox = s.mailbox
  | 0, _, he => by cases he
  | fuel + 1, p, he => by
    unfold Transmit.ackLoop at he
    split_ifs at he with hq
    · cases he
      exact ⟨h, rfl⟩
    · obtain ⟨a, -, he⟩ := Outcome.bind_eq_next.mp he
      obtain ⟨c, -, he⟩ := Outcome.bind_eq_next.mp he
      split_ifs at he with hsn
      · cases he
        exact ⟨h.setPoll c _, rfl⟩
      · exact h.ackLoop he

/-- **An entry is linked**: a buffer is taken, filled and put on the list. -/
theorem Pointed.link (h : Pointed P s) {sn : UInt8} {d : UartSendFormat}
    (hprod : bufFactoryProduce gUartSendBuf s.heap = .next (b, H)) (hd : d.buf = b)
    (he : linkEntry b (Tx.setMem { s with heap := H, uartSendSn := sn } b d) = .next s') :
    Pointed (fun c => P c ∨ c = b) s' ∧ s'.mailbox = s.mailbox := by
  obtain ⟨hlt, hn, hk⟩ := h.nodes.produce hprod
  obtain ⟨H', hadd, he⟩ := Outcome.bind_eq_next.mp he
  rw [Outcome.ofOption_eq_next] at hadd
  cases he
  have hin : ∀ a, InList P a ∨ a = .entry b ↔ InList (fun c => P c ∨ c = b) a := by
    intro a
    constructor
    · rintro ((rfl | ⟨c, hc, rfl⟩) | rfl)
      · exact .inl rfl
      · exact .inr ⟨c, .inl hc, rfl⟩
      · exact .inr ⟨b, .inr rfl, rfl⟩
    · rintro (rfl | ⟨c, hc | rfl, rfl⟩)
      · exact .inl (.inl rfl)
      · exact .inl (.inr ⟨c, hc, rfl⟩)
      · exact .inr rfl
  have hclosed : Closed (InList P) (H.setOwner (.entry b) (some b)) := by
    have hc : Closed (InList P) H :=
      h.entries.congr fun a ha => hk.frame a fun hn => not_inList hn ha
    exact ⟨fun a c ha hac => hc.next a c ha (by simpa using hac),
      fun a c ha hac => hc.prev a c ha (by simpa using hac)⟩
  obtain ⟨hc', hk'⟩ := hclosed.listAddTail (.inl rfl) hadd
  simp only [hin] at hc' hk'
  refine ⟨⟨?_, ?_, ?_, hc', ?_, fun p hp => ?_, fun msg hm => .inl (h.hand msg hm)⟩, rfl⟩
  · rintro c (hc | rfl)
    · exact h.lt c hc
    · exact hlt
  · intro c hc
    by_cases hcb : c = b
    · simp [Tx.setMem, hcb, hd]
    · simpa [Tx.setMem, hcb] using h.buf c (hc.resolve_right hcb)
  · refine hn.congr fun a ha => ?_
    refine (hk'.frame a (not_inList ha)).trans (Function.update_of_ne ?_ _ _)
    rintro rfl
    obtain h | ⟨i, -, h⟩ := ha <;> cases h
  · intro c hc
    refine (hk'.owner _).trans ?_
    rw [setOwner_owner]
    split_ifs with he
    · cases he
      rfl
    · have hcb : c ≠ b := fun hcb => he (by rw [hcb])
      rw [hk.owner]
      exact h.owner c (hc.resolve_right hcb)
  · obtain rfl | ⟨c, hc, rfl⟩ := h.poll p hp
    · exact .inl rfl
    · exact .inr ⟨c, .inl hc, rfl⟩

/-- A step that posts nothing. -/
theorem Pointed.silent {mailbox : List Message} (h : Pointed P s') (hm : s'.mailbox = mailbox)
    (hes : posted es = []) : Leads P mailbox s' es where
  pointed := h
  mailbox := by rw [hm, hes, List.append_nil]
  own := by
    rw [hes]
    rintro msg ⟨⟩

/-- The state after a step that may link an entry. -/
def LeadsOn (P : ℕ → Prop) (mailbox : List Message) (s' : Tx) (es : List Event) : Prop :=
  ∃ P' : ℕ → Prop, (∀ b, P b → P' b) ∧ Leads P' mailbox s' es

theorem Leads.on {mailbox : List Message} (h : Leads P mailbox s' es) : LeadsOn P mailbox s' es :=
  ⟨P, fun _ => id, h⟩

/-- The buffer taken by `uart_protocol_dispose` is linked. -/
theorem Pointed.disposed {info : UartSendInfo} (h : Pointed P s)
    (he : uartProtocolDispose info s = .next (s', es)) :
    ∃ b, es = [.produce b] ∧ Pointed (fun c => P c ∨ c = b) s' ∧ s'.mailbox = s.mailbox := by
  unfold uartProtocolDispose at he
  split_ifs at he
  obtain ⟨⟨b, H⟩, hprod, he⟩ := Outcome.bind_eq_next.mp he
  obtain ⟨t, hlink, he⟩ := Outcome.bind_eq_next.mp he
  cases he
  exact ⟨b, rfl, h.link hprod rfl hlink⟩

/-- The buffer taken for a response is linked. -/
theorem Pointed.responded {r : Response} (h : Pointed P s)
    (he : queueResponse r s = .next (s', es)) :
    ∃ b, es = [.produce b] ∧ Pointed (fun c => P c ∨ c = b) s' ∧ s'.mailbox = s.mailbox := by
  unfold Transmit.queueResponse at he
  split_ifs at he
  obtain ⟨⟨b, H⟩, hprod, he⟩ := Outcome.bind_eq_next.mp he
  obtain ⟨t, hlink, he⟩ := Outcome.bind_eq_next.mp he
  cases he
  exact ⟨b, rfl, h.link hprod rfl hlink⟩

theorem Pointed.dispose {info : UartSendInfo} (h : Pointed P s)
    (he : uartProtocolDispose info s = .next (s', es)) : LeadsOn P s.mailbox s' es := by
  obtain ⟨b, rfl, hs, hm⟩ := h.disposed he
  exact ⟨_, fun c hc => .inl hc, hs.silent hm rfl⟩

theorem Pointed.queueResponse {r : Response} (h : Pointed P s)
    (he : queueResponse r s = .next (s', es)) : LeadsOn P s.mailbox s' es := by
  obtain ⟨b, rfl, hs, hm⟩ := h.responded he
  exact ⟨_, fun c hc => .inl hc, hs.silent hm rfl⟩

theorem Pointed.acknowledge {sn : UInt8} (h : Pointed P s)
    (he : acknowledge sn s = .next (s', es)) : Leads P s.mailbox s' es := by
  unfold Transmit.acknowledge at he
  split_ifs at he
  obtain ⟨t, hl, he⟩ := Outcome.bind_eq_next.mp he
  cases he
  obtain ⟨ht, hm⟩ := h.ackLoop hl
  exact ht.silent hm rfl

/-- One `write` of `uart_send_tsk`. -/
theorem Pointed.sendWrite {msg : Message} {nhasSend : ℕ} {nsend : ℤ} (h : Pointed P s)
    (hmsg : P msg.p) (he : sendWrite msg nhasSend nsend s = .next (s', es)) :
    Leads P s.mailbox s' es := by
  have hsent : ∀ {t : SendTsk}, t.hand = [msg] → Pointed P { s with sendTsk := t } := by
    refine fun ht => h.keep rfl (fun _ => rfl) h.poll fun m hm => ?_
    rw [ht] at hm
    rw [List.mem_singleton.mp hm]
    exact hmsg
  unfold Transmit.sendWrite at he
  split_ifs at he
  · cases he
    exact (hsent rfl).silent rfl rfl
  · cases he
    exact (hsent (SendTsk.hand_loop _ _)).silent rfl rfl

/-- The queue without the message that `uart_send_tsk` takes in the step. -/
def leftOf (s : Tx) : Action → List Message
  | .take => s.mailbox.tail
  | _ => s.mailbox

theorem leftOf_subset (s : Tx) (a : Action) : leftOf s a ⊆ s.mailbox := by
  cases a with
  | take => exact fun _ hm => List.mem_of_mem_tail hm
  | _ => exact List.Subset.refl _

/-- A step that links no entry. -/
theorem Pointed.step_unlinked {a : Action} (h : Pointed P s)
    (htake : a = .take → ∀ msg ∈ s.mailbox.head?, P msg.p) (hd : ∀ info, a ≠ .dispose info)
    (hr : ∀ r, a ≠ .recv (.respond r)) (he : s.step a = .next (s', es)) :
    Leads P (leftOf s a) s' es := by
  cases a with
  | dispose info => exact absurd rfl (hd info)
  | recv p =>
    cases p with
    | dropped =>
      cases he
      exact h.silent rfl rfl
    | respond r => exact absurd rfl (hr r)
    | acknowledge sn reply => exact h.acknowledge he
  | pollLock =>
    simp only [Tx.step] at he
    split at he
    · cases he
      refine Pointed.silent ?_ rfl rfl
      exact h.keep rfl (fun _ => rfl)
        (fun p hp => h.entries.next .queue p (.inl rfl) (PollTsk.pass.inj hp)) h.hand
    · cases he
  | pollEntry =>
    simp only [Tx.step] at he
    split at he
    · cases he
    · rename_i p hp
      split_ifs at he with hq
      obtain ⟨c, hc, he⟩ := Outcome.bind_eq_next.mp he
      rw [Outcome.ofOption_eq_next] at hc
      subst hc
      obtain rfl | ⟨b, hb, rfl⟩ := h.poll c hp
      · exact absurd rfl hq
      · exact h.pollEntry hb he
  | pollUnlock =>
    simp only [Tx.step] at he
    split_ifs at he
    cases he
    refine Pointed.silent ?_ rfl rfl
    exact h.keep rfl (fun _ => rfl) (fun p hp => by cases hp) h.hand
  | take =>
    simp only [Tx.step] at he
    split at he
    · rename_i msg rest hs hm
      cases he
      refine Pointed.silent ?_ (by simp [leftOf, hm]) rfl
      refine h.keep rfl (fun _ => rfl) h.poll fun m hm' => ?_
      rw [SendTsk.hand_loop] at hm'
      rw [List.mem_singleton.mp hm']
      exact htake rfl msg (by simp [hm])
    · cases he
  | write nsend =>
    simp only [Tx.step] at he
    split at he
    · rename_i msg n hs
      exact h.sendWrite (h.hand msg (by simp [hs])) he
    · cases he
  | test =>
    simp only [Tx.step] at he
    split at he
    · rename_i msg hs
      have h' : Pointed P { s with sendTsk := .pend } :=
        h.keep rfl (fun _ => rfl) h.poll fun m hm => by cases hm
      split_ifs at he
      · exact h'.release (h.hand msg (by simp [hs])) he
      · cases he
        exact h'.silent rfl rfl
    · cases he

/-- **The pointers stay in the pool** in every step that takes no message from outside it. -/
theorem Pointed.step {a : Action} (h : Pointed P s)
    (htake : a = .take → ∀ msg ∈ s.mailbox.head?, P msg.p) (he : s.step a = .next (s', es)) :
    LeadsOn P (leftOf s a) s' es := by
  by_cases hd : ∃ info, a = .dispose info
  · obtain ⟨info, rfl⟩ := hd
    exact h.dispose he
  · by_cases hr : ∃ r, a = .recv (.respond r)
    · obtain ⟨r, rfl⟩ := hr
      exact h.queueResponse he
    · exact (h.step_unlinked htake (fun info ha => hd ⟨info, ha⟩) (fun r ha => hr ⟨r, ha⟩) he).on

/-- **The entries of the list** have been linked. -/
theorem Pointed.of_mem_sendList (h : Pointed P s) (hb : b ∈ s.sendList) : P b := by
  have hwalk : ∀ (fuel : ℕ) (p : Option Addr), (∀ a, p = some a → InList P a) →
      ∀ a ∈ walk s.heap.links.next .queue fuel p, ∃ c, P c ∧ a = .entry c := by
    intro fuel
    induction fuel with
    | zero => rintro p - a ⟨⟩
    | succ fuel ih =>
      intro p hp a ha
      cases p with
      | none => cases ha
      | some p =>
        unfold walk at ha
        split_ifs at ha with hq
        · cases ha
        · have hin : InList P p := hp p rfl
          rcases List.mem_cons.mp ha with rfl | ha
          · exact hin.resolve_left hq
          · exact ih _ (fun c hc => h.entries.next p c hin hc) a ha
  unfold Tx.sendList at hb
  obtain ⟨a, ha, ho⟩ := List.mem_filterMap.mp hb
  obtain ⟨c, hc, rfl⟩ := hwalk _ _ (fun c hc => h.entries.next .queue c (.inl rfl) hc) a ha
  rw [h.owner c hc] at ho
  cases ho
  exact hc

/-- The start, with messages in the queue or without. -/
theorem pointed_init {mem : ℕ → UartSendFormat} (he : uartContextInit H mem = .next s)
    (mailbox : List Message) : Pointed (fun _ => False) { s with mailbox := mailbox } := by
  obtain ⟨H', hc, hp, hf⟩ :=
    createBufFactory_spec (f := gUartSendBuf) (initListHead H .queue none) uartSendBufNum
  simp only [uartContextInit, hc, Outcome.next_bind, Outcome.pure_eq, Outcome.next.injEq] at he
  subst he
  have hq : H' .queue = initListHead H .queue none .queue := hf _ (by simp [gUartSendBuf])
    (by simp [gUartSendBuf])
  refine ⟨fun b hb => hb.elim, fun b hb => hb.elim, nodes_of_pool hp, ?_, fun b hb => hb.elim,
    fun p hp => (by cases hp), fun m hm => (by cases hm)⟩
  have hin : ∀ a, InList (fun _ => False) a ↔ a = .queue := fun a => by simp [InList]
  refine ⟨fun a b ha hb => ?_, fun a b ha hb => ?_⟩
  · rw [hin] at ha ⊢
    subst ha
    simpa [hq, initListHead, eq_comm] using hb
  · rw [hin] at ha ⊢
    subst ha
    simpa [hq, initListHead, eq_comm] using hb

end

end MultiPortConvertor.Uart.Pointers
