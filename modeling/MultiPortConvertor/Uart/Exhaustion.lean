import MultiPortConvertor.Uart.Release

/-! # When the pool runs out

A buffer is held while it is linked on `g_uart_send_list`, and after it has been unlinked with its
`free_flag` set while a message for it is on its way. No buffer is lost: each one is free or held
(`Accounted`), so `buf_factory_produce` finds the free ring empty exactly when all sixteen are held
(`produce_exit_iff`). A buffer is taken and linked in one step, so none is in the hands of a
notifier between two steps. Nothing in the code keeps the number of held buffers below sixteen. -/

namespace MultiPortConvertor.Uart.Exhaustion

open MultiPortConvertor.Lib.Outcomes MultiPortConvertor.Lib.Runs
open MultiPortConvertor.Tool.IntrusiveList MultiPortConvertor.Tool.BufFactory
open MultiPortConvertor.Uart.Format MultiPortConvertor.Uart.Dispose MultiPortConvertor.Uart.Parse
open MultiPortConvertor.Uart.Transmit
open MultiPortConvertor.Uart.TransmitQueues MultiPortConvertor.Uart.Ownership
open MultiPortConvertor.Uart.Refinement MultiPortConvertor.Uart.Release

/-- The buffer is on the list, or waits for its release: its `free_flag` is set and one of the
messages is for it. -/
def Held (list : List ℕ) (mem : ℕ → UartSendFormat) (messages : List Message) (b : ℕ) : Prop :=
  b ∈ list ∨ ((mem b).poll.freeFlag ≠ 0 ∧ ∃ msg ∈ messages, msg.p = b)

instance (list : List ℕ) (mem : ℕ → UartSendFormat) (messages : List Message) (b : ℕ) :
    Decidable (Held list mem messages b) :=
  inferInstanceAs (Decidable (_ ∨ _ ∧ _))

/-- The buffers that are held; the messages are that in the hands of `uart_send_tsk` and those in
the queue. -/
def held (s : Tx) : List ℕ := (List.range uartSendBufNum).filter fun b =>
  Held s.sendList s.mem (s.sendTsk.hand ++ s.mailbox) b

/-- The steps that take a buffer. -/
def Takes : Action → Prop
  | .dispose _ => True
  | .recv (.respond _) => True
  | _ => False

instance : DecidablePred Takes
  | .dispose _ | .recv (.respond _) => isTrue trivial
  | .recv .dropped | .recv (.acknowledge _ _) | .pollLock | .pollEntry | .pollUnlock | .take
  | .write _ | .test => isFalse id

/-! ### No buffer is lost -/

/-- **Every buffer is free or held.** -/
def Accounted (k : Books) : Prop :=
  ∀ b < uartSendBufNum, b ∈ k.free ∨ Held k.list k.mem k.messages b

section

variable {k k' : Books} {t : Option Message} {es : List Event}

/-- A change of the poll fields of a linked buffer, and more messages. -/
theorem Accounted.setPoll (h : Accounted k) {b : ℕ} (hb : b ∈ k.list) (poll : UartPoll)
    (messages : List Message) :
    Accounted { k with mem := setPoll k.mem b poll, messages := k.messages ++ messages } := by
  intro x hx
  rcases h x hx with hf | hl | ⟨hg, msg, hm, hp⟩
  · exact .inl hf
  · exact .inr (.inl hl)
  · by_cases he : x = b
    · exact .inr (.inl (he ▸ hb))
    · refine .inr (.inr ⟨?_, msg, List.mem_append_left _ hm, hp⟩)
      rwa [setPoll_poll_of_ne k.mem b poll he]

/-- A buffer is given back, and unlinked if it was linked; its messages may be done with. -/
theorem Accounted.give {free list list' : List ℕ} {mem : ℕ → UartSendFormat}
    {messages messages' : List Message} (h : Accounted ⟨free, list, mem, messages⟩) {b : ℕ}
    (hb : (mem b).buf = b) (hsub : ∀ x ∈ list, x = b ∨ x ∈ list')
    (hmsg : ∀ msg ∈ messages, msg.p = b ∨ msg ∈ messages') :
    Accounted ⟨free ++ [(mem b).buf], list', TransmitQueues.setPoll mem b .cleared, messages'⟩ := by
  intro x hx
  rw [hb]
  by_cases he : x = b
  · exact .inl (by simp [he])
  · rcases h x hx with hf | hl | ⟨hg, msg, hm, hp⟩
    · exact .inl (List.mem_append_left _ hf)
    · exact .inr (.inl ((hsub x hl).resolve_left he))
    · have hm' : msg ∈ messages' := (hmsg msg hm).resolve_left fun hpb => he (hp ▸ hpb)
      refine .inr (.inr ⟨?_, msg, hm', hp⟩)
      rwa [setPoll_poll_of_ne mem b _ he]

/-- A buffer is unlinked with its flag set when its message is posted. -/
theorem Accounted.sendLast {free l r : List ℕ} {mem : ℕ → UartSendFormat} {b : ℕ}
    {messages : List Message} (h : Accounted ⟨free, l ++ b :: r, mem, messages⟩) {poll : UartPoll}
    (hp : poll.freeFlag ≠ 0) : Accounted ⟨free, l ++ r, TransmitQueues.setPoll mem b poll,
      messages ++ [messageOf mem b]⟩ := by
  intro x hx
  by_cases he : x = b
  · refine .inr (.inr ⟨?_, messageOf mem b, by simp, he.symm⟩)
    rwa [he, setPoll_poll_self]
  · rcases h x hx with hf | hl | ⟨hg, msg, hm, hmp⟩
    · exact .inl hf
    · exact .inr (.inl (by simpa [he] using hl))
    · refine .inr (.inr ⟨?_, msg, List.mem_append_left _ hm, hmp⟩)
      rwa [setPoll_poll_of_ne mem b _ he]

/-- **The account is kept** by every step. -/
theorem Accounted.change (h : Accounted k) (ho : Booked k) (hc : Change t k es k') :
    Accounted k' := by
  cases hc with
  | idle => exact h
  | wrote => exact h
  | enqueue b type fill free list mem messages =>
    intro x hx
    by_cases he : x = b
    · exact .inr (.inl (by simp [he]))
    · rcases h x hx with hf | hl | ⟨hg, hm⟩
      · exact .inl ((List.mem_cons.mp hf).resolve_left he)
      · exact .inr (.inl (List.mem_append_left _ hl))
      · refine .inr (.inr ⟨?_, hm⟩)
        simpa [he] using hg
  | mark b _ hb => simpa using h.setPoll hb _ []
  | sendLast b l r free mem messages poll hv =>
    refine h.sendLast ?_
    rw [(verdict_sendLast hv).2]
    exact one_ne_zero
  | send b _ poll hb hv => exact h.setPoll hb poll _
  | keep b _ poll hb hv => simpa using h.setPoll hb poll []
  | drop b l r free mem messages hv =>
    refine h.give (ho.buf_of_list (by simp)) (fun x hx => ?_) fun msg hm => .inr hm
    simpa [or_left_comm] using hx
  | recycle msg free list mem messages hf =>
    have hm : msg ∈ msg :: messages := by simp
    have hnf : msg.p ∉ free := ho.notMem_of_flag hm hf
    refine h.give (ho.buf msg.p (ho.msg msg hm) hnf) (fun x hx => .inr hx) fun m hm => ?_
    exact (List.mem_cons.mp hm).imp_left fun he => by rw [he]
  | done msg free list mem messages hf =>
    intro x hx
    rcases h x hx with hx | hl | ⟨hg, m, hm, rfl⟩
    · exact .inl hx
    · exact .inr (.inl hl)
    · -- the message done with is for a buffer whose flag is not set
      have hm' : m ∈ messages := (List.mem_cons.mp hm).resolve_left fun he => hg (he ▸ hf)
      exact .inr (.inr ⟨hg, m, hm', rfl⟩)

theorem accounted_start (mem : ℕ → UartSendFormat) : Accounted (start mem).books := fun _ hb =>
  .inl (List.mem_range.mpr hb)

/-- The free ring is empty exactly when all buffers are held. -/
theorem Accounted.free_eq_nil_iff (h : Accounted k) (ho : Booked k) : k.free = [] ↔
    ∀ b < uartSendBufNum, Held k.list k.mem k.messages b := by
  constructor
  · intro hf b hb
    rcases h b hb with hm | hh
    · rw [hf] at hm
      cases hm
    · exact hh
  · intro hh
    refine List.eq_nil_iff_forall_not_mem.mpr fun b hb => ?_
    rcases hh b (ho.lt b (List.mem_append_left _ hb)) with hl | ⟨hg, msg, hm, rfl⟩
    · exact ho.disjoint hl hb
    · exact ho.notMem_of_flag hm hg hb

end

/-! ### The produce calls of a run -/

/-- A state in order whose buffers are all accounted for. -/
def Kept (s : Tx) : Prop :=
  ∃ q, Rep s q ∧ Booked q.books ∧ q.Rewound ∧ Accounted q.books

section

variable {s s' : Tx} {a : Action}

theorem kept_next (hs : Kept s) (hg : ¬ ReleasesLinked s a) (h : next s a = some s') : Kept s' := by
  obtain ⟨⟨t, es⟩, ht, rfl⟩ := Option.map_eq_some_iff.mp h
  obtain ⟨q, hr, ho, hw, ha⟩ := hs
  obtain ⟨q', -, hr', ho', hw', hc⟩ := step_booked hr ho hw hg (Outcome.toOption_eq_some.mp ht)
  exact ⟨q', hr', ho', hw', ha.change ho hc⟩

theorem length_held_lt_iff : (held s).length < uartSendBufNum ↔
    ¬ ∀ b < uartSendBufNum, Held s.sendList s.mem (s.sendTsk.hand ++ s.mailbox) b := by
  have hlen := List.length_filter_lt_length_iff_exists (l := List.range uartSendBufNum)
    (p := fun b => Held s.sendList s.mem (s.sendTsk.hand ++ s.mailbox) b)
  rw [List.length_range] at hlen
  unfold held
  rw [hlen]
  simp

/-- **`buf_factory_produce` finds the ring empty** exactly when all buffers are held. -/
theorem produce_exit_iff (hs : Kept s) : bufFactoryProduce gUartSendBuf s.heap = .exit ↔
    ¬ (held s).length < uartSendBufNum := by
  obtain ⟨q, hr, ho, -, ha⟩ := hs
  have hfree := ha.free_eq_nil_iff ho
  rw [length_held_lt_iff, not_not, sendList_eq hr (length_list_le ho), hr.mem,
    hr.sendTsk, hr.mailbox]
  refine Iff.trans ?_ hfree
  have hp := hr.lists.pool
  constructor
  · intro he
    cases hf : q.free with
    | nil => exact hf
    | cons b free =>
      rw [hf] at hp
      obtain ⟨H', hn, -⟩ := bufFactoryProduce_spec hp
      rw [hn] at he
      cases he
  · intro hf
    have hf' : q.free = [] := hf
    rw [hf'] at hp
    exact bufFactoryProduce_exit hp

theorem free_of_exit {q : Queues} {fill : UartCmdFormat → UartCmdFormat} {type : ℕ}
    (h : q.enqueue fill type = .exit) : q.free = [] := by
  unfold Queues.enqueue at h
  split_ifs at h
  cases hf : q.free with
  | nil => rfl
  | cons b free =>
    rw [hf] at h
    cases h

/-- The queues end the process only where a buffer is taken and there is none. -/
theorem takes_of_queues_exit {q : Queues} (h : q.step a = .exit) : Takes a ∧ q.free = [] := by
  cases a with
  | dispose info =>
    refine ⟨trivial, ?_⟩
    rcases Outcome.bind_eq_exit.mp h with he | ⟨x, -, hx⟩
    · exact free_of_exit he
    · cases hx
  | recv p =>
    cases p with
    | dropped => cases h
    | respond r => exact ⟨trivial, free_of_exit h⟩
    | acknowledge sn reply => exact absurd h (Queues.acknowledge_ends sn q).1
  | pollLock | pollUnlock =>
    simp only [Queues.step] at h
    split_ifs at h
  | pollEntry =>
    simp only [Queues.step] at h
    split_ifs at h
    split at h
    · cases h
    · exact absurd h (Queues.treat_ends q _ _).1
  | take =>
    simp only [Queues.step] at h
    split at h <;> cases h
  | write nsend =>
    simp only [Queues.step, Queues.sendWrite] at h
    split at h
    · split_ifs at h
    · cases h
  | test =>
    simp only [Queues.step] at h
    split at h
    · split_ifs at h
    · cases h

/-- A step ends the process only where it takes a buffer and finds none. -/
theorem takes_of_exit (hs : Kept s) (h : s.step a = .exit) :
    Takes a ∧ bufFactoryProduce gUartSendBuf s.heap = .exit := by
  obtain ⟨q, hr, ho, hw, -⟩ := hs
  have hm := step_matches hr ho hw a
  rw [h] at hm
  obtain ⟨ht, hf⟩ := takes_of_queues_exit hm.of_exit
  have hp := hr.lists.pool
  rw [hf] at hp
  exact ⟨ht, bufFactoryProduce_exit hp⟩

end

/-- The call of `buf_factory_produce` in the step, if there is one, finds a free buffer, and the
process goes on. -/
def FindsFree (s : Tx) (a : Action) : Prop :=
  s.step a ≠ .exit ∧ (Takes a → bufFactoryProduce gUartSendBuf s.heap ≠ .exit)

/-- **When the pool is not exhausted.** In a run from the start, on memory with any contents, in
which `uart_send_tsk` never finds the flag of a linked entry, every call of `buf_factory_produce`
finds a free buffer exactly when fewer than sixteen buffers are held at each of them. -/
theorem findsFree_iff {H : Heap Addr Owner} {mem : ℕ → UartSendFormat} {s : Tx}
    (h : uartContextInit H mem = .next s) {as : List Action}
    (hg : Steps next (fun s a => ¬ ReleasesLinked s a) s as) :
    Steps next FindsFree s as ↔
      Steps next (fun s a => Takes a → (held s).length < uartSendBufNum) s as := by
  have hk : Kept s := ⟨start mem, rep_start h, init_booked mem, fun _ => rfl, accounted_start mem⟩
  refine steps_congr (fun s a t hs hg ht => kept_next hs hg ht) (fun s a hs => ?_) hk hg
  constructor
  · rintro ⟨-, hf⟩ ht
    exact not_not.mp fun hn => hf ht ((produce_exit_iff hs).mpr hn)
  · intro hl
    have hf : Takes a → bufFactoryProduce gUartSendBuf s.heap ≠ .exit := fun ht he =>
      (produce_exit_iff hs).mp he (hl ht)
    exact ⟨fun he => hf (takes_of_exit hs he).1 (takes_of_exit hs he).2, hf⟩

/-- Seventeen notifications before the poll task comes round. -/
theorem notifications_exhaust :
    (exec next txInit (List.replicate 16 (.dispose (hidInsertNtf 1)))).map
      (fun s => (s.step (.dispose (hidInsertNtf 1))).isExit) = some true := by
  decide +kernel

/-- The theorem applied to these notifications. -/
theorem notifications_findsFree :
    Steps next FindsFree txInit (List.replicate 17 (.dispose (hidInsertNtf 1))) ↔
      Steps next (fun s a => Takes a → (held s).length < uartSendBufNum) txInit
        (List.replicate 17 (.dispose (hidInsertNtf 1))) :=
  findsFree_iff uartContextInit_txInit (by decide +kernel)

end MultiPortConvertor.Uart.Exhaustion
