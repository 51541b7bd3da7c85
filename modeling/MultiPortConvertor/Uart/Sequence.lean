import MultiPortConvertor.Uart.Pointers
import MultiPortConvertor.Uart.Release

/-! # The sequence numbers of the notifications

`uart_send_sn` has eight bits and is counted up by every call of `uart_protocol_dispose`. The record
of a run counts the calls with their full number. A buffer that has been linked and has the poll
type of a notification was filled by such a call and carries its number modulo 256, whatever
happened to it since and whatever was in its memory before; so two notifications with the same
sequence number are a multiple of 256 calls apart (`pending_apart`). A notification that is not
answered stays pending for three hundred passes, which is long enough for 256 calls
(`wrap_collides`). -/

namespace MultiPortConvertor.Uart.Sequence

open MultiPortConvertor.Lib.Bytes MultiPortConvertor.Lib.Outcomes MultiPortConvertor.Lib.Runs
open MultiPortConvertor.Tool.IntrusiveList MultiPortConvertor.Tool.BufFactory
open MultiPortConvertor.Uart.Format MultiPortConvertor.Uart.Dispose MultiPortConvertor.Uart.Parse
open MultiPortConvertor.Uart.Transmit MultiPortConvertor.Uart.TransmitQueues
open MultiPortConvertor.Uart.Pointers MultiPortConvertor.Uart.Release

/-! ### What a step does to the buffers -/

/-- The step fills no buffer as a notification: the buffers that have the type afterwards had it
before, with the same frame. -/
def Quiet (s s' : Tx) : Prop := s'.uartSendSn = s.uartSendSn ∧
  ∀ b, (s'.mem b).poll.type = 1 → (s.mem b).poll.type = 1 ∧ (s'.mem b).cmd = (s.mem b).cmd

section

variable {s s' t : Tx} {es : List Event} {b : ℕ} {poll : UartPoll}

theorem Quiet.refl (s : Tx) : Quiet s s := ⟨rfl, fun _ h => ⟨h, rfl⟩⟩

theorem Quiet.trans (h : Quiet s t) (h' : Quiet t s') : Quiet s s' := by
  refine ⟨h'.1.trans h.1, fun b hb => ?_⟩
  obtain ⟨ht, hc⟩ := h'.2 b hb
  obtain ⟨hs, hc'⟩ := h.2 b ht
  exact ⟨hs, hc.trans hc'⟩

theorem Quiet.of_eq (hm : s'.mem = s.mem) (hn : s'.uartSendSn = s.uartSendSn) : Quiet s s' :=
  ⟨hn, fun b hb => by rw [hm] at hb ⊢; exact ⟨hb, rfl⟩⟩

/-- The poll fields of a buffer change, and it becomes no notification. -/
theorem quiet_setPoll (s : Tx) (b : ℕ) {poll : UartPoll}
    (hp : poll.type = 1 → (s.mem b).poll.type = 1) : Quiet s (s.setPoll b poll) := by
  refine ⟨rfl, fun x hx => ?_⟩
  have hm : (s.setPoll b poll).mem = setPoll s.mem b poll := rfl
  rw [hm] at hx ⊢
  refine ⟨?_, setPoll_cmd s.mem b x poll⟩
  by_cases he : x = b
  · subst he
    rw [setPoll_poll_self] at hx
    exact hp hx
  · rwa [setPoll_poll_of_ne s.mem b poll he] at hx

theorem quiet_release (h : release b s = .next (s', es)) : Quiet s s' := by
  obtain ⟨H, -, hn⟩ := Outcome.bind_eq_next.mp h
  cases hn
  exact (quiet_setPoll s b fun h => by cases h).trans (.of_eq rfl rfl)

theorem quiet_unlink {p : Addr} (h : unlink p s = .next s') : Quiet s s' := by
  obtain ⟨r, -, h⟩ := Outcome.bind_eq_next.mp h
  obtain ⟨prev, -, h⟩ := Outcome.bind_eq_next.mp h
  obtain ⟨H, -, hn⟩ := Outcome.bind_eq_next.mp h
  cases hn
  exact .of_eq rfl rfl

theorem postEntry_mem (h : postEntry b s = .next (s', es)) :
    s'.mem = s.mem ∧ s'.uartSendSn = s.uartSendSn := by
  obtain ⟨t, hm, hn⟩ := Outcome.bind_eq_next.mp h
  cases hn
  unfold mailboxPost at hm
  split_ifs at hm
  cases hm
  exact ⟨rfl, rfl⟩

theorem quiet_postEntry (h : postEntry b s = .next (s', es)) : Quiet s s' :=
  .of_eq (postEntry_mem h).1 (postEntry_mem h).2

/-- A change of the poll fields that keeps the type. -/
theorem quiet_keep (s : Tx) (b : ℕ) (f : UartPoll → UartPoll)
    (hf : (f (s.mem b).poll).type = (s.mem b).poll.type) :
    Quiet s (s.setPoll b (f (s.mem b).poll)) :=
  quiet_setPoll s b fun h => hf ▸ h

theorem quiet_goOn (p : Addr) (s : Tx) : Quiet s (goOn p s) := .of_eq rfl rfl

theorem quiet_drop {p : Addr} (h : (unlink p s >>= fun s => release b s) = .next (s', es)) :
    Quiet s s' := by
  obtain ⟨t, hu, hr⟩ := Outcome.bind_eq_next.mp h
  exact (quiet_unlink hu).trans (quiet_release hr)

/-- The treatment of an entry only changes poll fields. -/
theorem quiet_pollEntry {p : Addr} (h : pollEntry p s = .next (s', es)) : Quiet s s' := by
  obtain ⟨b, -, h⟩ := Outcome.bind_eq_next.mp h
  dsimp only at h
  split_ifs at h with h0 h1 ht hf hd hn
  · obtain ⟨⟨t, es'⟩, hp, h⟩ := Outcome.bind_eq_next.mp h
    obtain ⟨u, hu, hn⟩ := Outcome.bind_eq_next.mp h
    cases hn
    exact (quiet_keep s b (fun poll => { poll with freeFlag := 1 }) rfl).trans
      ((quiet_postEntry hp).trans (quiet_unlink hu))
  · obtain ⟨⟨t, es'⟩, hp, hn⟩ := Outcome.bind_eq_next.mp h
    cases hn
    have ht : t.mem = s.mem := (postEntry_mem hp).1
    refine (quiet_postEntry hp).trans ((quiet_setPoll t b fun h => ?_).trans (quiet_goOn p _))
    rw [ht]
    exact h
  · exact quiet_drop h
  · exact (quiet_keep s b
      (fun poll => { poll with delay := 0, times := (poll.times + 1) % 2 ^ 32 }) rfl).trans
        (quiet_drop h)
  · obtain ⟨⟨t, es'⟩, hp, hn⟩ := Outcome.bind_eq_next.mp h
    cases hn
    exact (quiet_keep s b
      (fun poll => { poll with delay := 0, times := (poll.times + 1) % 2 ^ 32 }) rfl).trans
        ((quiet_postEntry hp).trans (quiet_goOn p t))
  · cases h
    exact (quiet_keep s b (fun poll => { poll with delay := (poll.delay + 5) % 2 ^ 32 }) rfl).trans
      (quiet_goOn p _)
  · cases h
    exact quiet_goOn p s

theorem quiet_ackLoop {sn : UInt8} : ∀ {fuel : ℕ} {p : Option Addr},
    ackLoop sn s fuel p = .next s' → Quiet s s'
  | 0, _, h => by cases h
  | fuel + 1, p, h => by
    unfold ackLoop at h
    split_ifs at h with hq
    · cases h
      exact .refl s
    · obtain ⟨a, -, h⟩ := Outcome.bind_eq_next.mp h
      obtain ⟨b, -, h⟩ := Outcome.bind_eq_next.mp h
      split_ifs at h with hsn
      · cases h
        exact quiet_keep s b (fun poll => { poll with freeFlag := 1 }) rfl
      · exact quiet_ackLoop h

theorem linkEntry_mem {b : ℕ} (h : linkEntry b s = .next s') :
    s'.mem = s.mem ∧ s'.uartSendSn = s.uartSendSn := by
  obtain ⟨H, -, hn⟩ := Outcome.bind_eq_next.mp h
  cases hn
  exact ⟨rfl, rfl⟩

/-- **A call of `uart_protocol_dispose`** fills one buffer and counts. -/
theorem dispose_mem {info : UartSendInfo} (h : uartProtocolDispose info s = .next (s', es)) :
    ∃ b, es = [.produce b] ∧ s'.uartSendSn = s.uartSendSn + 1 ∧
      s'.mem = Function.update s.mem b ⟨b, { (s.mem b).poll with type := info.pollType.toNat },
        disposeFrame info s.uartSendSn (s.mem b).cmd⟩ := by
  unfold uartProtocolDispose at h
  split_ifs at h
  obtain ⟨⟨b, H⟩, -, h⟩ := Outcome.bind_eq_next.mp h
  obtain ⟨t, hl, hn⟩ := Outcome.bind_eq_next.mp h
  cases hn
  obtain ⟨hm, hsn⟩ := linkEntry_mem hl
  exact ⟨b, rfl, hsn, hm⟩

/-- A response fills one buffer with the other type, and does not count. -/
theorem response_mem {r : Response} (h : queueResponse r s = .next (s', es)) :
    ∃ b, es = [.produce b] ∧ s'.uartSendSn = s.uartSendSn ∧
      s'.mem = Function.update s.mem b ⟨b, { (s.mem b).poll with type := 0 },
        r.frame (s.mem b).cmd⟩ := by
  unfold queueResponse at h
  split_ifs at h
  obtain ⟨⟨b, H⟩, -, h⟩ := Outcome.bind_eq_next.mp h
  obtain ⟨t, hl, hn⟩ := Outcome.bind_eq_next.mp h
  cases hn
  obtain ⟨hm, hsn⟩ := linkEntry_mem hl
  exact ⟨b, rfl, hsn, hm⟩

theorem quiet_response {r : Response} (h : queueResponse r s = .next (s', es)) : Quiet s s' := by
  obtain ⟨b, -, hsn, hm⟩ := response_mem h
  refine ⟨hsn, fun x hx => ?_⟩
  rw [hm] at hx ⊢
  by_cases he : x = b
  · subst he
    simp at hx
  · simpa [he] using hx

/-- **Every other step is quiet.** -/
theorem step_quiet {a : Action} (ha : ∀ info, a ≠ .dispose info) (h : s.step a = .next (s', es)) :
    Quiet s s' := by
  cases a with
  | dispose info => exact absurd rfl (ha info)
  | recv p =>
    cases p with
    | dropped =>
      cases h
      exact .refl s
    | respond r => exact quiet_response h
    | acknowledge sn reply =>
      simp only [Tx.step, recv, acknowledge] at h
      split_ifs at h
      obtain ⟨t, hl, hn⟩ := Outcome.bind_eq_next.mp h
      cases hn
      exact quiet_ackLoop hl
  | pollLock =>
    simp only [Tx.step] at h
    split at h <;> cases h
    exact .of_eq rfl rfl
  | pollUnlock =>
    simp only [Tx.step] at h
    split_ifs at h
    cases h
    exact .of_eq rfl rfl
  | pollEntry =>
    simp only [Tx.step] at h
    split at h
    · cases h
    · split_ifs at h
      obtain ⟨p, -, h⟩ := Outcome.bind_eq_next.mp h
      exact quiet_pollEntry h
  | take =>
    simp only [Tx.step] at h
    split at h <;> cases h
    exact .of_eq rfl rfl
  | write nsend =>
    simp only [Tx.step, sendWrite] at h
    split at h
    · split_ifs at h <;> cases h <;> exact .of_eq rfl rfl
    · cases h
  | test =>
    simp only [Tx.step] at h
    split at h
    · split_ifs at h
      · have hq := quiet_release h
        exact hq
      · cases h
        exact .of_eq rfl rfl
    · cases h

end

/-! ### The record of the calls -/

/-- A state with its record: the number of calls of `uart_protocol_dispose` so far, and for each
buffer the number of the call that last filled it. -/
structure Numbered where
  tx : Tx
  calls : ℕ
  ordinal : ℕ → ℕ

def numbered (s : Tx) : Numbered := ⟨s, 0, fun _ => 0⟩

/-- The buffer handed out. -/
def produced (es : List Event) : Option ℕ := es.findSome? fun
  | .produce b => some b
  | _ => none

/-- The record after a step. -/
def Numbered.after (w : Numbered) (a : Action) (s : Tx) (es : List Event) : Numbered :=
  match a, produced es with
  | .dispose _, some b => ⟨s, w.calls + 1, Function.update w.ordinal b w.calls⟩
  | _, _ => { w with tx := s }

/-- The next state with its record. -/
def number (w : Numbered) (a : Action) : Option Numbered :=
  (w.tx.step a).toOption.map fun x => w.after a x.1 x.2

/-- **The invariant**, where `P` are the buffers that have been linked: the counter holds the number
of calls modulo 256, and a buffer of `P` with the type of a notification carries the number of its
own call. -/
structure Counted (P : ℕ → Prop) (w : Numbered) : Prop where
  pointed : Pointed P w.tx
  mailbox : ∀ msg ∈ w.tx.mailbox, P msg.p
  sn : w.tx.uartSendSn = UInt8.ofNat w.calls
  lt : ∀ b, P b → (w.tx.mem b).poll.type = 1 → w.ordinal b < w.calls
  own : ∀ b, P b → (w.tx.mem b).poll.type = 1 →
    (w.tx.mem b).cmd.sn = UInt8.ofNat (w.ordinal b)
  inj : ∀ b c, P b → P c → (w.tx.mem b).poll.type = 1 → (w.tx.mem c).poll.type = 1 →
    w.ordinal b = w.ordinal c → b = c

section

variable {P P' : ℕ → Prop} {w w' : Numbered} {a : Action}

theorem disposeFrame_sn (info : UartSendInfo) (sn : UInt8) (c : UartCmdFormat) :
    UartCmdFormat.sn (disposeFrame info sn c) = sn :=
  (disposeFrame_header (by omega)).trans (by simp [disposeHeader])

/-- A call of `uart_protocol_dispose` adds its buffer to `P`. -/
theorem Counted.dispose (h : Counted P w) {info : UartSendInfo} {s : Tx} {es : List Event}
    (hs : uartProtocolDispose info w.tx = .next (s, es)) :
    ∃ P', Counted P' (w.after (.dispose info) s es) := by
  obtain ⟨b, rfl, hp, hmail⟩ := h.pointed.disposed hs
  obtain ⟨c, hc, hsn, hm⟩ := dispose_mem hs
  obtain rfl : b = c := by simpa using hc
  have hne : ∀ x, x ≠ b → s.mem x = w.tx.mem x := by
    intro x hx
    rw [hm, Function.update_of_ne hx]
  have hord : (w.after (.dispose info) s [.produce b]).ordinal =
      Function.update w.ordinal b w.calls := rfl
  -- the other buffers of the new set belong to the old one
  have hold : ∀ z, z ≠ b → P z ∨ z = b → P z := fun z hz h => h.resolve_right hz
  have hlt : ∀ z, z ≠ b → P z ∨ z = b → (s.mem z).poll.type = 1 → w.ordinal z < w.calls :=
    fun z hz h' ht => h.lt z (hold z hz h') (hne z hz ▸ ht)
  refine ⟨fun x => P x ∨ x = b, hp, fun msg hmsg => ?_, ?_, fun x hP hx => ?_, fun x hP hx => ?_,
    fun x y hPx hPy hx hy hxy => ?_⟩
  · have hmsg' : msg ∈ w.tx.mailbox := hmail ▸ hmsg
    exact .inl (h.mailbox msg hmsg')
  · show s.uartSendSn = UInt8.ofNat (w.calls + 1)
    rw [hsn, h.sn, UInt8.ofNat_add]
    rfl
  · show Function.update w.ordinal b w.calls x < w.calls + 1
    by_cases he : x = b
    · subst he
      simp
    · rw [Function.update_of_ne he]
      exact Nat.lt_succ_of_lt (hlt x he hP hx)
  · show (s.mem x).cmd.sn = UInt8.ofNat (Function.update w.ordinal b w.calls x)
    by_cases he : x = b
    · subst he
      rw [hm, Function.update_self, Function.update_self, ← h.sn]
      exact disposeFrame_sn info _ _
    · have hx' : (w.tx.mem x).poll.type = 1 := hne x he ▸ hx
      rw [hne x he, Function.update_of_ne he]
      exact h.own x (hold x he hP) hx'
  · rw [hord] at hxy
    by_cases hxb : x = b <;> by_cases hyb : y = b
    · rw [hxb, hyb]
    · subst hxb
      rw [Function.update_self, Function.update_of_ne hyb] at hxy
      have := hlt y hyb hPy hy
      omega
    · subst hyb
      rw [Function.update_self, Function.update_of_ne hxb] at hxy
      have := hlt x hxb hPx hx
      omega
    · rw [Function.update_of_ne hxb, Function.update_of_ne hyb] at hxy
      exact h.inj x y (hold x hxb hPx) (hold y hyb hPy) (hne x hxb ▸ hx) (hne y hyb ▸ hy) hxy

/-- A quiet step, whose notifications among the buffers linked were linked before. -/
theorem Counted.quiet (h : Counted P w) {s : Tx} (hq : Quiet w.tx s) (hp : Pointed P' s)
    (hmail : ∀ msg ∈ s.mailbox, P' msg.p)
    (hold : ∀ b, P' b → (s.mem b).poll.type = 1 → P b) : Counted P' { w with tx := s } := by
  refine ⟨hp, hmail, hq.1.trans h.sn, fun b hP hb => h.lt b (hold b hP hb) (hq.2 b hb).1,
    fun b hP hb => ?_, fun b c hPb hPc hb hc he => ?_⟩
  · obtain ⟨ht, hcmd⟩ := hq.2 b hb
    show (s.mem b).cmd.sn = _
    rw [hcmd]
    exact h.own b (hold b hP hb) ht
  · exact h.inj b c (hold b hPb hb) (hold c hPc hc) (hq.2 b hb).1 (hq.2 c hc).1 he

/-- A response adds its buffer to `P`, with the other type. -/
theorem Counted.respond (h : Counted P w) {r : Response} {s : Tx} {es : List Event}
    (hs : queueResponse r w.tx = .next (s, es)) : ∃ P', Counted P' { w with tx := s } := by
  obtain ⟨b, rfl, hp, hmail⟩ := h.pointed.responded hs
  obtain ⟨c, hc, -, hm⟩ := response_mem hs
  obtain rfl : b = c := by simpa using hc
  refine ⟨_, h.quiet (quiet_response hs) hp (fun msg hmsg => .inl ?_) fun x hP hx => ?_⟩
  · rw [hmail] at hmsg
    exact h.mailbox msg hmsg
  · refine hP.resolve_right fun he => ?_
    subst he
    rw [hm] at hx
    simp at hx

/-- Every other step. -/
theorem Counted.unlinked (h : Counted P w) {s : Tx} {es : List Event}
    (hd : ∀ info, a ≠ .dispose info) (hr : ∀ r, a ≠ .recv (.respond r))
    (hs : w.tx.step a = .next (s, es)) : Counted P { w with tx := s } := by
  have hhead : a = .take → ∀ msg ∈ w.tx.mailbox.head?, P msg.p := fun _ msg hmsg =>
    h.mailbox msg (List.mem_of_mem_head? hmsg)
  have hl := h.pointed.step_unlinked hhead hd hr hs
  refine h.quiet (step_quiet hd hs) hl.pointed (fun msg hmsg => ?_) fun _ hP _ => hP
  rw [hl.mailbox] at hmsg
  rcases List.mem_append.mp hmsg with hmsg | hmsg
  · exact h.mailbox msg (leftOf_subset w.tx a hmsg)
  · exact hl.own msg hmsg

theorem counted_number (h : Counted P w) (hn : number w a = some w') : ∃ P', Counted P' w' := by
  obtain ⟨⟨s, es⟩, hs, rfl⟩ := Option.map_eq_some_iff.mp hn
  have hs := Outcome.toOption_eq_some.mp hs
  by_cases ha : ∃ info, a = .dispose info
  · obtain ⟨info, rfl⟩ := ha
    exact h.dispose hs
  · have hne : ∀ info, a ≠ .dispose info := fun info he => ha ⟨info, he⟩
    have hafter : w.after a s es = { w with tx := s } := by
      unfold Numbered.after
      split
      · exact absurd rfl (hne _)
      · rfl
    rw [hafter]
    by_cases hr : ∃ r, a = .recv (.respond r)
    · obtain ⟨r, rfl⟩ := hr
      exact h.respond hs
    · exact ⟨P, h.unlinked hne (fun r he => hr ⟨r, he⟩) hs⟩

end

/-- The entry is a notification that waits for its answer. -/
def Pending (s : Tx) (b : ℕ) : Prop :=
  b ∈ s.sendList ∧ (s.mem b).poll.type = 1 ∧ (s.mem b).poll.freeFlag = 0

/-- Pending notifications with the same sequence number are a positive multiple of 256 calls apart.
-/
def Spaced (w : Numbered) : Prop :=
  ∀ b c, Pending w.tx b → Pending w.tx c → b ≠ c → (w.tx.mem b).cmd.sn = (w.tx.mem c).cmd.sn →
    w.ordinal b ≠ w.ordinal c ∧ w.ordinal b % 256 = w.ordinal c % 256

theorem Counted.spaced {P : ℕ → Prop} {w : Numbered} (h : Counted P w) : Spaced w := by
  intro b c hb hc hbc hsn
  have hPb : P b := h.pointed.of_mem_sendList hb.1
  have hPc : P c := h.pointed.of_mem_sendList hc.1
  refine ⟨fun he => hbc (h.inj b c hPb hPc hb.2.1 hc.2.1 he), ?_⟩
  rw [h.own b hPb hb.2.1, h.own c hPc hc.2.1] at hsn
  have := congrArg UInt8.toNat hsn
  simpa using this

/-- **How close equal sequence numbers come.** In every state of a run from the start, on memory
with any contents, two pending notifications with the same sequence number were made by calls that
are a positive multiple of 256 calls apart. -/
theorem pending_apart {H : Heap Addr Owner} {mem : ℕ → UartSendFormat} {s : Tx}
    (h : uartContextInit H mem = .next s) (as : List Action) :
    States number Spaced (numbered s) as := by
  have hinit : Counted (fun _ => False) (numbered s) := by
    have hp := pointed_init h []
    obtain ⟨H', -, hn⟩ := Outcome.bind_eq_next.mp h
    cases hn
    exact ⟨hp, fun msg hmsg => (by cases hmsg), rfl, fun b hb => hb.elim, fun b hb => hb.elim,
      fun b c hb => hb.elim⟩
  refine (states_of_inv (I := fun w => ∃ P, Counted P w) (fun w a w' hw hn => ?_) ⟨_, hinit⟩).mono
    ?_
  · obtain ⟨P, hw⟩ := hw
    exact counted_number hw hn
  · rintro w ⟨P, hw⟩
    exact hw.spaced

/-! ### A counter that comes round -/

/-- Fifteen results of uploads, posted in one pass behind a notification, and written. -/
def uploads : List Action :=
  List.replicate 15 (.dispose (httpUpDataNtf 0)) ++ [.pollLock] ++ List.replicate 16 .pollEntry ++
    [.pollUnlock] ++ (List.replicate 15 [.take, .write 9, .test]).flatten

/-- A notification that is not answered, 255 more calls, and another notification. -/
def wrap : List Action :=
  [.dispose (hidInsertNtf 1), .pollLock, .pollEntry, .pollUnlock, .take, .write 9, .test] ++
    (List.replicate 17 uploads).flatten ++ [.dispose (hidInsertNtf 2)]

/-- Both are pending with the sequence number 0. -/
theorem wrap_collides : (exec next txInit wrap).map (fun s => s.sendList.map fun b =>
    ((s.mem b).poll.type, (s.mem b).poll.freeFlag, (s.mem b).cmd.sn)) =
      some [(1, 0, 0), (1, 0, 0)] := by
  decide +kernel

/-- The theorem applied to this run. -/
theorem wrap_spaced : States number Spaced (numbered txInit) wrap :=
  pending_apart uartContextInit_txInit wrap

end MultiPortConvertor.Uart.Sequence
