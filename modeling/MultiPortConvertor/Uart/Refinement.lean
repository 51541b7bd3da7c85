import MultiPortConvertor.Uart.Ownership

/-! # The pointers implement the queues

`Rep` relates the heap of list nodes to the queues: the free ring runs through the nodes of the free
buffers, `g_uart_send_list` through the entries, and the pointer of the poll task stands where the
rest of the entries begins. As long as the buffers are owned as they should be, every step of the
pointer implementation does what the step of the queues does (`step_matches`): it ends, blocks or
exits with it, leaves the same record, and follows no `NULL`. -/

namespace MultiPortConvertor.Uart.Refinement

open MultiPortConvertor.Lib.Bytes MultiPortConvertor.Lib.Outcomes MultiPortConvertor.Lib.Rings
open MultiPortConvertor.Tool.IntrusiveList MultiPortConvertor.Tool.BufFactory
open MultiPortConvertor.Uart.Format MultiPortConvertor.Uart.Dispose MultiPortConvertor.Uart.Parse
open MultiPortConvertor.Uart.Transmit MultiPortConvertor.Uart.TransmitQueues
open MultiPortConvertor.Uart.Ownership

/-- The lists in a heap: the free buffers and the entries. -/
structure Lists (H : Heap Addr Owner) (free list : List ℕ) : Prop where
  pool : Pool gUartSendBuf uartSendBufNum H free
  ring : Ring H.links .queue (list.map .entry)
  owner : ∀ b ∈ list, (H (.entry b)).owner = some b

/-- The address where a rest of the entries begins. -/
def headAddr (rest : List ℕ) : Addr := headOf .queue (rest.map .entry)

/-- **The queues that a state implements.** -/
structure Rep (s : Tx) (q : Queues) : Prop where
  lists : Lists s.heap q.free q.list
  mem : s.mem = q.mem
  uartSendSn : s.uartSendSn = q.uartSendSn
  mailbox : s.mailbox = q.mailbox
  sendTsk : s.sendTsk = q.sendTsk
  pollTsk : s.pollTsk = if q.locked then .pass (some (headAddr q.rest)) else .sleep

/-- A step of the pointers does what a step of the queues does. -/
def Matches (x : Outcome (Tx × List Event)) (y : Outcome (Queues × List Event)) : Prop :=
  match y with
  | .next (q, es) => ∃ s, x = .next (s, es) ∧ Rep s q
  | .blocked => x = .blocked
  | .exit => x = .exit
  | .fault => x = .fault

section

variable {s : Tx} {es : List Event} {y : Outcome (Queues × List Event)}

theorem Matches.of_next (h : Matches (.next (s, es)) y) : ∃ q, y = .next (q, es) ∧ Rep s q := by
  rcases y with ⟨q, es'⟩ | _ | _ | _
  · obtain ⟨s', ⟨⟩, hr⟩ := h
    exact ⟨q, rfl, hr⟩
  · obtain ⟨⟩ := h
  · obtain ⟨⟩ := h
  · obtain ⟨⟩ := h

theorem Matches.of_exit (h : Matches .exit y) : y = .exit := by
  rcases y with ⟨q, es'⟩ | _ | _ | _
  · obtain ⟨s', ⟨⟩, -⟩ := h
  · obtain ⟨⟩ := h
  · rfl
  · obtain ⟨⟩ := h

theorem Matches.of_fault (h : Matches .fault y) : y = .fault := by
  rcases y with ⟨q, es'⟩ | _ | _ | _
  · obtain ⟨s', ⟨⟩, -⟩ := h
  · obtain ⟨⟩ := h
  · obtain ⟨⟩ := h
  · rfl

end

/-! ### The operations on the lists -/

namespace Lists

variable {H : Heap Addr Owner} {free list l r : List ℕ} {b : ℕ}

theorem entry_notMem (hb : b ∉ list) : Addr.entry b ∉ Addr.queue :: list.map .entry := by
  intro h
  rcases List.mem_cons.mp h with h | h
  · cases h
  · obtain ⟨c, hc, he⟩ := List.mem_map.mp h
    cases he
    exact hb hc

/-- The free ring only depends on its own nodes. -/
theorem pool_of_frame {H' : Heap Addr Owner} (h : Lists H free list)
    (hf : ∀ a, a ∉ Addr.queue :: list.map .entry → H' a = H a) :
    Pool gUartSendBuf uartSendBufNum H' free := by
  refine h.pool.congr (hf _ ?_) fun i => hf _ ?_ <;> simp [gUartSendBuf]

/-- The list of the entries does not depend on the nodes of the free ring. -/
theorem of_frame {H' : Heap Addr Owner} {free' : List ℕ} (h : Lists H free list)
    (hp : Pool gUartSendBuf uartSendBufNum H' free')
    (hf : ∀ a, a ≠ Addr.pool → (∀ j, a ≠ Addr.node j) → H' a = H a) : Lists H' free' list := by
  have hq : ∀ a ∈ Addr.queue :: list.map .entry, H' a = H a := by
    intro a ha
    rcases List.mem_cons.mp ha with rfl | ha
    · exact hf _ (by simp) (by simp)
    · obtain ⟨c, -, rfl⟩ := List.mem_map.mp ha
      exact hf _ (by simp) (by simp)
  refine ⟨hp, h.ring.congr (fun a ha => ?_) (fun a ha => ?_), fun c hc => ?_⟩
  · simp [hq a ha]
  · simp [hq a ha]
  · rw [hq _ (List.mem_cons_of_mem _ (List.mem_map_of_mem hc))]
    exact h.owner c hc

theorem produce (h : Lists H (b :: free) list) :
    ∃ H', bufFactoryProduce gUartSendBuf H = .next (b, H') ∧ Lists H' free list := by
  obtain ⟨H', hp, hpool, hf⟩ := bufFactoryProduce_spec h.pool
  exact ⟨H', hp, h.of_frame hpool hf⟩

theorem recycle (h : Lists H free list) (hb : b ∉ free) (hlt : b < uartSendBufNum) :
    ∃ H', bufFactoryRecycle gUartSendBuf b H = .next H' ∧ Lists H' (free ++ [b]) list := by
  obtain ⟨H', hp, hpool, hf⟩ := bufFactoryRecycle_spec h.pool hb hlt
  exact ⟨H', hp, h.of_frame hpool hf⟩

/-- An entry is linked. -/
theorem link (h : Lists H free list) (hb : b ∉ list) :
    ∃ H', listAddTail (H.setOwner (.entry b) (some b)) (.entry b) .queue = some H' ∧
      Lists H' free (list ++ [b]) := by
  have hring : Ring (H.setOwner (.entry b) (some b)).links .queue (list.map .entry) :=
    h.ring.congr (fun a _ => by simp) (fun a _ => by simp)
  obtain ⟨H', ha, hr, ho, hf⟩ := listAddTail_spec hring (entry_notMem hb)
  have hmap : (list ++ [b]).map Addr.entry = list.map .entry ++ [.entry b] := by simp
  refine ⟨H', ha, h.pool.congr ?_ fun i => ?_, by rw [hmap]; exact hr, fun c hc => ?_⟩
  · rw [hf _ (by simp [gUartSendBuf])]
    exact Function.update_of_ne (by simp [gUartSendBuf]) _ _
  · rw [hf _ (by simp [gUartSendBuf])]
    exact Function.update_of_ne (by simp [gUartSendBuf]) _ _
  · rw [ho, setOwner_owner]
    split_ifs with he
    · cases he
      rfl
    · rcases List.mem_append.mp hc with hc | hc
      · exact h.owner c hc
      · exact absurd (by rw [List.mem_singleton.mp hc]) he

theorem next_head (h : Lists H free list) : (H .queue).next = some (headAddr list) :=
  h.ring.next_head

theorem ring_cut (h : Lists H free (l ++ b :: r)) :
    Ring H.links .queue (l.map .entry ++ Addr.entry b :: r.map .entry) := by
  have := h.ring
  rwa [List.map_append, List.map_cons] at this

theorem next_entry (h : Lists H free (l ++ b :: r)) :
    (H (.entry b)).next = some (headAddr r) := h.ring_cut.next_mid

theorem owner_entry (h : Lists H free (l ++ b :: r)) : (H (.entry b)).owner = some b :=
  h.owner b (by simp)

/-- An entry is unlinked. -/
theorem unlink (h : Lists H free (l ++ b :: r)) :
    (H (headAddr r)).prev = some (.entry b) ∧
      ∃ H', listDel H (.entry b) = some H' ∧ Lists H' free (l ++ r) := by
  obtain ⟨H', hd, hr, -, ho, hf⟩ := listDel_spec h.ring_cut
  refine ⟨?_, H', hd, h.pool_of_frame fun a ha => hf a ?_, ?_, fun c hc => ?_⟩
  · have hcut : Ring H.links .queue ((l.map .entry ++ [Addr.entry b]) ++ r.map .entry) := by
      have := h.ring_cut
      rwa [List.append_cons] at this
    have := hcut.adj.2
    rwa [lastOf_concat] at this
  · rwa [List.map_append, List.map_cons] at ha
  · rwa [← List.map_append] at hr
  · rw [ho]
    refine h.owner c ?_
    rcases List.mem_append.mp hc with hc | hc
    · exact List.mem_append_left _ hc
    · exact List.mem_append_right _ (List.mem_cons_of_mem _ hc)

end Lists

/-! ### The steps -/

section

variable {s : Tx} {q : Queues}

theorem Rep.locked (hr : Rep s q) : s.locked = q.locked := by
  unfold Tx.locked
  rw [hr.pollTsk]
  cases q.locked <;> simp

theorem matches_blocked {x : Outcome (Tx × List Event)} (h : x = .blocked) :
    Matches x .blocked := h

/-- Taking a buffer, filling it and linking it. -/
theorem Rep.enqueue (hr : Rep s q) {b : ℕ} {free : List ℕ} (hf : q.free = b :: free)
    (hb : b ∉ q.list) (hl : q.locked = false) :
    ∃ H, bufFactoryProduce gUartSendBuf s.heap = .next (b, H) ∧
      ∀ (d : UartSendFormat) (sn : UInt8), ∃ s',
        linkEntry b (Tx.setMem { s with heap := H, uartSendSn := sn } b d) = .next s' ∧
          Rep s' { q with
            free := free
            rest := q.rest ++ [b]
            mem := Function.update q.mem b d
            uartSendSn := sn } := by
  have hlists := hr.lists
  rw [hf] at hlists
  obtain ⟨H, hp, hlists⟩ := hlists.produce
  obtain ⟨H', ha, hlists⟩ := hlists.link hb
  refine ⟨H, hp, fun d sn => ⟨{ s with
    heap := H', mem := Function.update s.mem b d, uartSendSn := sn }, ?_, ?_⟩⟩
  · unfold linkEntry Tx.setMem
    dsimp only
    rw [ha]
    rfl
  · refine ⟨?_, by rw [hr.mem], rfl, hr.mailbox, hr.sendTsk, ?_⟩
    · simpa [Queues.list] using hlists
    · have := hr.pollTsk
      rw [hl] at this
      simpa [hl] using this

/-- An enqueue that leaves the counter at `sn`, as `uart_protocol_dispose` and `uart_protocol_parse`
both make one. -/
theorem enqueue_matches (hr : Rep s q) (ho : Booked q.books) (fill : UartCmdFormat → UartCmdFormat)
    (type : ℕ) (sn : UInt8) :
    Matches
      (if s.locked then .blocked
      else bufFactoryProduce gUartSendBuf s.heap >>= fun x =>
        linkEntry x.1 (Tx.setMem { s with heap := x.2, uartSendSn := sn } x.1
          ⟨x.1, { (s.mem x.1).poll with type := type }, fill (s.mem x.1).cmd⟩) >>= fun s =>
            .next (s, [.produce x.1]))
      (q.enqueue fill type >>= fun x => .next ({ x.1 with uartSendSn := sn }, x.2)) := by
  unfold Queues.enqueue
  rw [hr.locked]
  cases hl : q.locked with
  | true => exact matches_blocked (by simp)
  | false =>
    cases hf : q.free with
    | nil =>
      have hp := hr.lists.pool
      rw [hf] at hp
      simp [bufFactoryProduce_exit hp, Matches]
    | cons b free =>
      have hb : b ∉ q.list := fun hm => ho.disjoint (k := q.books) hm (by simp [Queues.books, hf])
      obtain ⟨H, hp, hlink⟩ := hr.enqueue hf hb hl
      obtain ⟨s', hs, hr'⟩ :=
        hlink ⟨b, { (s.mem b).poll with type := type }, fill (s.mem b).cmd⟩ sn
      refine ⟨s', by simp [hp, hs], ?_⟩
      rw [hr.mem] at hr'
      simpa [hl] using hr'

theorem dispose_matches (hr : Rep s q) (ho : Booked q.books) (info : UartSendInfo) :
    Matches (uartProtocolDispose info s) (q.dispose info) := by
  have h := enqueue_matches hr ho (disposeFrame info q.uartSendSn) info.pollType.toNat
    (q.uartSendSn + 1)
  rw [← hr.uartSendSn] at h
  unfold uartProtocolDispose Queues.dispose
  rw [← hr.uartSendSn]
  exact h

theorem response_matches (hr : Rep s q) (ho : Booked q.books) (r : Response) :
    Matches (queueResponse r s) (q.enqueue r.frame 0) := by
  have h := enqueue_matches hr ho r.frame 0 q.uartSendSn
  have hq : (q.enqueue r.frame 0 >>= fun x => .next
    ({ x.1 with uartSendSn := q.uartSendSn }, x.2)) =
      q.enqueue r.frame 0 := by
    unfold Queues.enqueue
    split_ifs
    · rfl
    · cases q.free <;> rfl
  rw [hq, ← hr.uartSendSn] at h
  exact h

/-- A change of the poll fields of one buffer. -/
theorem Rep.setPoll (hr : Rep s q) (b : ℕ) (poll : UartPoll) :
    Rep (s.setPoll b poll) (q.setPoll b poll) := by
  refine ⟨hr.lists, ?_, hr.uartSendSn, hr.mailbox, hr.sendTsk, hr.pollTsk⟩
  unfold Tx.setPoll Tx.setMem Queues.setPoll
  rw [hr.mem]

/-- **The search of `uart_protocol_parse`** finds the first entry with the sequence number. -/
theorem ackLoop_eq {free : List ℕ} (sn : UInt8) : ∀ {r l : List ℕ} (fuel : ℕ),
    Lists s.heap free (l ++ r) → r.length < fuel → ackLoop sn s fuel (some (headAddr r)) =
      match r.find? fun b => (s.mem b).cmd.sn = sn with
      | none => .next s
      | some b => .next (s.setPoll b { (s.mem b).poll with freeFlag := 1 })
  | [], l, fuel + 1, _, _ => by simp [ackLoop, headAddr]
  | b :: r, l, fuel + 1, h, hf => by
    have hne : some (headAddr (b :: r)) ≠ some Addr.queue := by simp [headAddr]
    have hown : (s.heap (headAddr (b :: r))).owner = some b := h.owner_entry
    have hnext : (s.heap (headAddr (b :: r))).next = some (headAddr r) := h.next_entry
    rw [ackLoop, if_neg hne, Outcome.ofOption_some, Outcome.next_bind, hown, Outcome.ofOption_some,
      Outcome.next_bind, hnext, List.find?_cons]
    by_cases hsn : (s.mem b).cmd.sn = sn
    · simp [hsn]
    · have ih := ackLoop_eq sn (l := l ++ [b]) (r := r) fuel (by simpa using h)
        (by simpa using hf)
      rw [if_neg fun he => hsn he.symm, ih]
      simp [hsn]

theorem length_list_le (ho : Booked q.books) : q.list.length ≤ uartSendBufNum := by
  have hnd : q.list.Nodup := (List.nodup_append.mp ho.nodup).2.1
  have hsub : q.list ⊆ List.range uartSendBufNum := fun b hb =>
    List.mem_range.mpr (ho.lt_of_list hb)
  have := (List.subperm_of_subset hnd hsub).length_le
  rwa [List.length_range] at this

theorem acknowledge_matches (hr : Rep s q) (ho : Booked q.books) (sn : UInt8) :
    Matches (acknowledge sn s) (q.acknowledge sn) := by
  unfold acknowledge Queues.acknowledge
  rw [hr.locked]
  cases hl : q.locked with
  | true => exact matches_blocked (by simp)
  | false =>
    have hlen := length_list_le ho
    have hloop := ackLoop_eq (s := s) sn (l := []) (r := q.list) (uartSendBufNum + 1)
      hr.lists (by omega)
    rw [hr.lists.next_head, if_neg (by simp), if_neg (by simp), hloop, hr.mem]
    cases q.list.find? fun b => (q.mem b).cmd.sn = sn with
    | none => exact ⟨s, rfl, hr⟩
    | some b => exact ⟨_, rfl, hr.setPoll b _⟩

theorem recv_matches (hr : Rep s q) (ho : Booked q.books) (p : Parsed) :
    Matches (recv p s) (q.recv p) := by
  cases p with
  | dropped => exact ⟨s, rfl, hr⟩
  | respond r => exact response_matches hr ho r
  | acknowledge sn reply => exact acknowledge_matches hr ho sn

/-- The message for an entry is posted, if there is room. -/
theorem postEntry_eq (hr : Rep s q) (b : ℕ) : postEntry b s =
    if q.mailbox.length < uartMbxNum then
      .next ({ s with mailbox := q.mailbox ++ [q.message b] },
        [.post (q.message b) (q.mem b).cmd.bytes])
    else .blocked := by
  unfold postEntry mailboxPost Queues.message
  rw [hr.mailbox, hr.mem]
  split_ifs <;> rfl

/-- Room in the mailbox is filled on both sides. -/
theorem Rep.post (hr : Rep s q) (msg : Message) :
    Rep { s with mailbox := q.mailbox ++ [msg] } { q with mailbox := q.mailbox ++ [msg] } :=
  ⟨hr.lists, hr.mem, hr.uartSendSn, rfl, hr.sendTsk, hr.pollTsk⟩

theorem unlink_eq {b : ℕ} {rest : List ℕ} (hr : Rep s q) (hq : q.rest = b :: rest) :
    ∃ H, unlink (.entry b) s = .next { s with heap := H, pollTsk := .pass (some (headAddr rest)) } ∧
      Lists H q.free (q.seen ++ rest) := by
  have hl : Lists s.heap q.free (q.seen ++ b :: rest) := by
    have := hr.lists
    rwa [Queues.list, hq] at this
  obtain ⟨hprev, H, hd, hlists⟩ := hl.unlink
  refine ⟨H, ?_, hlists⟩
  unfold unlink
  rw [hl.next_entry, Outcome.ofOption_some, Outcome.next_bind, hprev, Outcome.ofOption_some,
    Outcome.next_bind, hd]
  rfl

/-- A buffer that is not free is given back. -/
theorem release_matches (hr : Rep s q) {p : ℕ} (hp : (q.mem p).buf ∉ q.free)
    (hlt : (q.mem p).buf < uartSendBufNum) :
    Matches (release p s) (.next (q.release p, [.recycle (q.mem p).buf])) := by
  obtain ⟨H, hrec, hlists⟩ := hr.lists.recycle hp hlt
  have hbuf : ((s.setPoll p .cleared).mem p).buf = (q.mem p).buf := by
    simp [Tx.setPoll, Tx.setMem, hr.mem]
  refine ⟨{ s.setPoll p .cleared with heap := H }, ?_, ?_⟩
  · unfold release
    dsimp only
    rw [hbuf]
    change (bufFactoryRecycle gUartSendBuf (q.mem p).buf s.heap >>= _) = _
    rw [hrec]
    rfl
  · have hr' := hr.setPoll p .cleared
    exact ⟨hlists, hr'.mem, hr.uartSendSn, hr.mailbox, hr.sendTsk, hr.pollTsk⟩

/-- The pointer of the poll task goes on behind the entry. -/
theorem Rep.goOn {b : ℕ} {rest : List ℕ} (hr : Rep s q) (hq : q.rest = b :: rest)
    (hl : q.locked = true) :
    Rep (goOn (.entry b) s) { q with seen := q.seen ++ [b], rest := rest } := by
  have hlists := hr.lists
  have hcut : q.list = q.seen ++ b :: rest := by rw [Queues.list, hq]
  have hcut' : q.list = (q.seen ++ [b]) ++ rest := by rw [hcut]; simp
  rw [hcut] at hlists
  refine ⟨?_, hr.mem, hr.uartSendSn, hr.mailbox, hr.sendTsk, ?_⟩
  · rw [← hcut, hcut'] at hlists
    exact hlists
  · unfold Transmit.goOn
    dsimp only
    rw [hlists.next_entry, hl, if_pos rfl]

/-- The entry is unlinked on both sides. -/
theorem Rep.unlinked {rest : List ℕ} {H : Heap Addr Owner} (hr : Rep s q)
    (hl : q.locked = true) (hlists : Lists H q.free (q.seen ++ rest)) :
    Rep { s with heap := H, pollTsk := .pass (some (headAddr rest)) } { q with rest := rest } :=
  ⟨hlists, hr.mem, hr.uartSendSn, hr.mailbox, hr.sendTsk, by rw [hl, if_pos rfl]⟩

/-- An entry is dropped: unlinked, cleared and given back. -/
theorem drop_matches {b : ℕ} {rest : List ℕ} (hr : Rep s q) (ho : Booked q.books)
    (hl : q.locked = true) (hq : q.rest = b :: rest) :
    Matches (unlink (.entry b) s >>= fun s => release b s)
      (.next ({ q.release b with rest := rest }, [.recycle (q.mem b).buf])) := by
  have hb : b ∈ q.books.list := by simp [Queues.books, Queues.list, hq]
  have hbuf : (q.mem b).buf = b := ho.buf_of_list hb
  obtain ⟨H, hu, hlists⟩ := unlink_eq hr hq
  rw [hu, Outcome.next_bind]
  refine release_matches (q := { q with rest := rest }) (hr.unlinked hl hlists) (p := b) ?_ ?_
  · rw [hbuf]
    exact ho.disjoint hb
  · rw [hbuf]
    exact ho.lt_of_list hb

/-- The poll fields are set, the message is posted, and the pointer goes on. -/
theorem sendOn_matches {b : ℕ} {rest : List ℕ} (hr : Rep s q) (hl : q.locked = true)
    (hq : q.rest = b :: rest) :
    Matches (postEntry b s >>= fun x => .next (goOn (.entry b) x.1, x.2))
      (q.post b { q with seen := q.seen ++ [b], rest := rest }) := by
  rw [postEntry_eq hr]
  unfold Queues.post
  split_ifs with hm
  · exact ⟨_, rfl, (hr.post (q.message b)).goOn hq hl⟩
  · exact matches_blocked rfl

/-- The message is posted, and the entry is unlinked. -/
theorem sendLast_matches {b : ℕ} {rest : List ℕ} (hr : Rep s q) (hl : q.locked = true)
    (hq : q.rest = b :: rest) :
    Matches (postEntry b s >>= fun x => unlink (.entry b) x.1 >>= fun s => .next (s, x.2))
      (q.post b { q with rest := rest }) := by
  rw [postEntry_eq hr]
  unfold Queues.post
  split_ifs with hm
  · obtain ⟨H, hu, hlists⟩ := unlink_eq (hr.post (q.message b)) hq
    rw [Outcome.next_bind, hu]
    exact ⟨_, rfl, (hr.post (q.message b)).unlinked hl hlists⟩
  · exact matches_blocked rfl

/-- **One entry of a pass.** -/
theorem pollEntry_matches {b : ℕ} {rest : List ℕ} (hr : Rep s q) (ho : Booked q.books)
    (hl : q.locked = true) (hq : q.rest = b :: rest) :
    Matches (pollEntry (.entry b) s) (q.treat b rest) := by
  have hown : (s.heap (.entry b)).owner = some b := by
    have hlists := hr.lists
    rw [Queues.list, hq] at hlists
    exact hlists.owner_entry
  have hb : b ∈ q.books.list := by simp [Queues.books, Queues.list, hq]
  unfold pollEntry Queues.treat verdict
  rw [hown, Outcome.ofOption_some, Outcome.next_bind, hr.mem]
  dsimp only
  by_cases h0 : (q.mem b).poll.type = 0
  · -- a response: posted once and unlinked
    rw [if_pos h0, if_pos h0]
    have hsend := sendLast_matches (hr.setPoll b { (q.mem b).poll with freeFlag := 1 }) hl hq
    unfold Queues.post at hsend ⊢
    simp only [Queues.setPoll_mailbox, Queues.setPoll_message, Queues.setPoll_mem_cmd] at hsend
    exact hsend
  rw [if_neg h0, if_neg h0]
  by_cases h1 : (q.mem b).poll.type = 1
  · rw [if_pos h1, if_pos h1]
    by_cases ht : (q.mem b).poll.times = 0
    · rw [if_pos ht, if_pos ht, postEntry_eq hr]
      unfold Queues.post
      split_ifs with hm
      · exact ⟨_, rfl, ((hr.post (q.message b)).setPoll b _).goOn hq hl⟩
      · exact matches_blocked rfl
    rw [if_neg ht, if_neg ht]
    by_cases hf : (q.mem b).poll.freeFlag ≠ 0
    · rw [if_pos hf, if_pos hf]
      exact drop_matches hr ho hl hq
    rw [if_neg hf, if_neg hf]
    by_cases hd : ((q.mem b).poll.delay + 5) % 2 ^ 32 ≥ 500
    · rw [if_pos hd, if_pos hd]
      have hr' := hr.setPoll b
        { (q.mem b).poll with delay := 0, times := ((q.mem b).poll.times + 1) % 2 ^ 32 }
      by_cases hn : ((q.mem b).poll.times + 1) % 2 ^ 32 > 3
      · rw [if_pos hn, if_pos hn]
        have hdrop := drop_matches hr' (ho.poll_change (ho.disjoint hb) _) hl hq
        rw [Queues.release_setPoll, Queues.setPoll_mem_buf] at hdrop
        exact hdrop
      · rw [if_neg hn, if_neg hn]
        have hsend := sendOn_matches hr' hl hq
        unfold Queues.post at hsend ⊢
        simp only [Queues.setPoll_mailbox, Queues.setPoll_message, Queues.setPoll_mem_cmd] at hsend
        exact hsend
    · rw [if_neg hd, if_neg hd]
      exact ⟨_, rfl, (hr.setPoll b _).goOn hq hl⟩
  · rw [if_neg h1, if_neg h1]
    dsimp only
    rw [Queues.setPoll_eq_self]
    exact ⟨_, rfl, hr.goOn hq hl⟩

/-- The send task goes on alike on both sides. -/
theorem Rep.send (hr : Rep s q) (t : SendTsk) :
    Rep { s with sendTsk := t } { q with sendTsk := t } :=
  ⟨hr.lists, hr.mem, hr.uartSendSn, hr.mailbox, rfl, hr.pollTsk⟩

theorem sendWrite_matches (hr : Rep s q) (msg : Message) (nhasSend : ℕ) (nsend : ℤ) :
    Matches (sendWrite msg nhasSend nsend s) (Queues.sendWrite msg nhasSend nsend q) := by
  have hw : s.written msg nhasSend nsend.toNat =
      slice (q.mem msg.p).cmd (sizeofUartCmdFormat * nhasSend) nsend.toNat := by
    rw [Tx.written, hr.mem]
  unfold sendWrite Queues.sendWrite
  split_ifs
  · exact ⟨_, rfl, hr.send _⟩
  · exact ⟨_, by rw [hw], hr.send _⟩
  · exact matches_blocked rfl

theorem headAddr_eq_queue {rest : List ℕ} : headAddr rest = .queue ↔ rest = [] := by
  cases rest <;> simp [headAddr]

/-- The pass begins at the head of the list. -/
theorem pollLock_matches (hr : Rep s q) (hw : q.Rewound) :
    Matches (s.step .pollLock) (q.step .pollLock) := by
  have hp := hr.pollTsk
  simp only [Tx.step, Queues.step]
  cases hl : q.locked with
  | true =>
    rw [hl, if_pos rfl] at hp
    rw [hp]
    exact matches_blocked rfl
  | false =>
    rw [hl, if_neg (by simp)] at hp
    rw [hp]
    refine ⟨_, rfl, hr.lists, hr.mem, hr.uartSendSn, hr.mailbox, hr.sendTsk, ?_⟩
    have hlist : q.list = q.rest := by rw [Queues.list, hw hl, List.nil_append]
    dsimp only
    rw [hr.lists.next_head, hlist, if_pos rfl]

/-- The entry at the pointer is the first of the rest. -/
theorem entry_matches (hr : Rep s q) (ho : Booked q.books) :
    Matches (s.step .pollEntry) (q.step .pollEntry) := by
  have hp := hr.pollTsk
  simp only [Tx.step, Queues.step]
  cases hl : q.locked with
  | false =>
    rw [hl, if_neg (by simp)] at hp
    rw [hp]
    exact matches_blocked rfl
  | true =>
    rw [hl, if_pos rfl] at hp
    rw [hp]
    cases hq : q.rest with
    | nil => exact matches_blocked rfl
    | cons b rest => exact pollEntry_matches hr ho hl hq

/-- The pass is over when the pointer is back at the head of the list. -/
theorem pollUnlock_matches (hr : Rep s q) : Matches (s.step .pollUnlock) (q.step .pollUnlock) := by
  have hp := hr.pollTsk
  simp only [Tx.step, Queues.step]
  cases hl : q.locked with
  | false =>
    rw [hl, if_neg (by simp)] at hp
    rw [hp]
    exact matches_blocked (by simp)
  | true =>
    rw [hl, if_pos rfl] at hp
    by_cases hq : q.rest = []
    · rw [hp, hq]
      refine ⟨_, rfl, ?_, hr.mem, hr.uartSendSn, hr.mailbox, hr.sendTsk, rfl⟩
      have hlists := hr.lists
      rw [Queues.list, hq, List.append_nil] at hlists
      exact hlists
    · have hne : headAddr q.rest ≠ .queue := fun he => hq (headAddr_eq_queue.mp he)
      rw [hp, if_neg (by simpa using hne), if_neg (by simp [hq])]
      exact matches_blocked rfl

theorem take_matches (hr : Rep s q) : Matches (s.step .take) (q.step .take) := by
  simp only [Tx.step, Queues.step]
  rw [hr.sendTsk, hr.mailbox]
  cases q.sendTsk with
  | pend =>
    cases q.mailbox with
    | nil => exact matches_blocked rfl
    | cons msg mailbox =>
      exact ⟨_, rfl, hr.lists, hr.mem, hr.uartSendSn, rfl, rfl, hr.pollTsk⟩
  | write msg nhasSend => exact matches_blocked rfl
  | test msg => exact matches_blocked rfl

theorem write_matches (hr : Rep s q) (nsend : ℤ) :
    Matches (s.step (.write nsend)) (q.step (.write nsend)) := by
  simp only [Tx.step, Queues.step]
  rw [hr.sendTsk]
  cases q.sendTsk with
  | pend => exact matches_blocked rfl
  | write msg nhasSend => exact sendWrite_matches hr msg nhasSend nsend
  | test msg => exact matches_blocked rfl

/-- A buffer whose flag is set is in use, and names itself. -/
theorem test_matches (hr : Rep s q) (ho : Booked q.books) :
    Matches (s.step .test) (q.step .test) := by
  simp only [Tx.step, Queues.step]
  rw [hr.sendTsk]
  cases ht : q.sendTsk with
  | pend => exact matches_blocked rfl
  | write msg nhasSend => exact matches_blocked rfl
  | test msg =>
    have hr' := hr.send .pend
    have hflag : (s.mem msg.p).poll.freeFlag = (q.mem msg.p).poll.freeFlag := by rw [hr.mem]
    dsimp only
    rw [hflag]
    split_ifs with hf
    · have hmem : msg ∈ q.books.messages := by simp [Queues.books, Queues.messages, ht]
      have hlt : msg.p < uartSendBufNum := ho.msg msg hmem
      have hnf : msg.p ∉ q.free := ho.notMem_of_flag hmem hf
      have hbuf : (q.mem msg.p).buf = msg.p := ho.buf msg.p hlt hnf
      refine release_matches hr' ?_ ?_
      · rw [hbuf]
        exact hnf
      · rw [hbuf]
        exact hlt
    · exact ⟨_, rfl, hr'⟩

/-- **A step of the pointers is a step of the queues**, as long as the buffers are owned. -/
theorem step_matches (hr : Rep s q) (ho : Booked q.books) (hw : q.Rewound) (a : Action) :
    Matches (s.step a) (q.step a) := by
  cases a with
  | dispose info => exact dispose_matches hr ho info
  | recv p => exact recv_matches hr ho p
  | pollLock => exact pollLock_matches hr hw
  | pollEntry => exact entry_matches hr ho
  | pollUnlock => exact pollUnlock_matches hr
  | take => exact take_matches hr
  | write nsend => exact write_matches hr nsend
  | test => exact test_matches hr ho

end

end MultiPortConvertor.Uart.Refinement
