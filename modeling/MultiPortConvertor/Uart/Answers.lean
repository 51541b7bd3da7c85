import MultiPortConvertor.Uart.ParseStatics
import MultiPortConvertor.Uart.Release
import Mathlib.Data.List.Forall2

/-! # One answer per command

The process as a whole: the receive task hands the frames that `uart_get_data` delivers to
`uart_protocol_parse`, and between two frames the other tasks take their steps. A frame asks if it
is accepted and one of the four commands with an answer; it then appends one response to
`g_uart_send_list`, and no other frame appends anything. Over a run the responses come in the order
of the frames that ask (`answers_forall`). -/

namespace MultiPortConvertor.Uart.Answers

open MultiPortConvertor.Lib.Bytes MultiPortConvertor.Lib.Outcomes MultiPortConvertor.Lib.Runs
open MultiPortConvertor.Uart.Format MultiPortConvertor.Uart.GetData MultiPortConvertor.Uart.Grammar
open MultiPortConvertor.Uart.Dispose MultiPortConvertor.Uart.Handlers MultiPortConvertor.Uart.Parse
open MultiPortConvertor.Uart.Transmit MultiPortConvertor.Uart.TransmitQueues
open MultiPortConvertor.Uart.Refinement MultiPortConvertor.Uart.Release
open MultiPortConvertor.Uart.ParseStatics

/-! ### What a frame asks for -/

/-- An accepted frame with a command that is answered. -/
def Asks (c : UartCmdFormat) : Prop :=
  procotolCheck c = true ∧ c.cmdId ∈ ([0x11, 0x12, 0x13, 0x23] : List UInt8)

instance (c : UartCmdFormat) : Decidable (Asks c) := inferInstanceAs (Decidable (_ ∧ _))

/-- The payload of the answer. -/
def answerData (c : UartCmdFormat) (env : Env) : List UInt8 :=
  if c.cmdId = 0x11 then (payload c).flatMap (staBytes env)
  else if c.cmdId = 0x12 then timeSyncBytes env
  else if c.cmdId = 0x13 then drvPoweronBytes env
  else if env.lp0 then [2] else [0]

/-- **The buffer `d` holds the answer** to the frame `c`. -/
structure IsAnswer (va : List UInt8 → List UInt8) (c : UartCmdFormat) (env : Env)
    (d : UartSendFormat) : Prop where
  type : d.poll.type = 0
  sn : d.cmd.sn = c.sn
  pdtType : d.cmd.pdtType = c.pdtType
  ackword : ∃ list ∈ uartCmdList va, list.cmdword = c.cmdId ∧ d.cmd.cmdId = list.ackword
  len : d.cmd.len = (answerData c env).length + 4
  data : slice d.cmd 7 (answerData c env).length = answerData c env
  check : procotolCheck d.cmd = true

section

variable (va : List UInt8 → List UInt8) {c : UartCmdFormat} (env : Env)

theorem length_answerData_le (hL : c.len ≤ 128) : (answerData c env).length ≤ 372 := by
  unfold answerData
  split_ifs
  · exact length_queSta_le env hL
  · simp [timeSyncBytes]
  · simp [drvPoweronBytes]
  · simp
  · simp

/-- A frame that asks gets a response with the payload of its answer. -/
theorem parse_of_asks (h : Asks c) (hL : c.len ≤ 128) : ∃ r,
    Parse.uartProtocolParse va c env = .respond r ∧ r.Carries (answerData c env) ∧ r.sn = c.sn ∧
      r.pdtType = c.pdtType ∧
      ∃ list ∈ uartCmdList va, list.cmdword = c.cmdId ∧ r.ackword = list.ackword := by
  obtain ⟨hc, hcmd⟩ := h
  have h4 : 4 ≤ c.len := (procotolCheck_iff.mp hc).1
  have hle := length_answerData_le env hL
  -- the entry with the command word answers, and its handler packs the payload
  have key : ∀ list ∈ uartCmdList va, list.cmdword = c.cmdId → list.ackword ≠ 0 →
      (∃ sn effects, list.callback c env (.start env) =
        .packed (answerData c env) sn effects) →
      ∃ r, Parse.uartProtocolParse va c env = .respond r ∧ r.Carries (answerData c env) ∧
        r.sn = c.sn ∧ r.pdtType = c.pdtType ∧
        ∃ list ∈ uartCmdList va, list.cmdword = c.cmdId ∧ r.ackword = list.ackword := by
    rintro list hm hw hack ⟨sn, effects, he⟩
    refine ⟨⟨c.sn, c.pdtType, list.ackword, list.callback c env (.start env)⟩, ?_,
      carries_of_eq he hle, rfl, rfl, list, hm, hw, rfl⟩
    rw [uartProtocolParse_of_mem va env hc hm hw]
    unfold UartCmdList.handle
    rw [if_pos hack]
  simp only [List.mem_cons, List.not_mem_nil, or_false] at hcmd
  rcases hcmd with hcmd | hcmd | hcmd | hcmd
  · have he := queStaRsp_eq c env h4 hL
    refine key ⟨0x11, 0x11, queStaRsp⟩ (by simp [uartCmdList]) hcmd.symm (by simp) ?_
    rw [answerData, if_pos hcmd]
    dsimp only
    exact ⟨_, _, he⟩
  · have he := timeSyncRsp_eq c env
    refine key ⟨0x12, 0x12, timeSyncRsp⟩ (by simp [uartCmdList]) hcmd.symm (by simp) ?_
    rw [answerData, if_neg (by simp [hcmd]), if_pos hcmd]
    exact ⟨_, _, he⟩
  · have he := drvPoweronRsp_eq c env
    refine key ⟨0x13, 0x13, drvPoweronRsp⟩ (by simp [uartCmdList]) hcmd.symm (by simp) ?_
    rw [answerData, if_neg (by simp [hcmd]), if_neg (by simp [hcmd]), if_pos hcmd]
    exact ⟨_, _, he⟩
  · have he := printAsk_eq c env va
    refine key ⟨0x23, 0x23, printAsk va⟩ (by simp [uartCmdList]) hcmd.symm (by simp) ?_
    rw [answerData, if_neg (by simp [hcmd]), if_neg (by simp [hcmd]), if_neg (by simp [hcmd])]
    by_cases hlp : env.lp0 = true
    · rw [if_pos hlp] at he ⊢
      exact ⟨_, _, he⟩
    · rw [if_neg hlp] at he ⊢
      exact ⟨_, _, he⟩

/-- A frame that does not ask gets no response. -/
theorem parse_of_not_asks (h : ¬ Asks c) (r : Response) :
    Parse.uartProtocolParse va c env ≠ .respond r := by
  intro hr
  cases hc : procotolCheck c with
  | false =>
    rw [uartProtocolParse_rejected va env hc] at hr
    cases hr
  | true =>
    rcases uartProtocolParse_accepted va env hc with ⟨hd, -⟩ | ⟨list, hm, hw, hp⟩
    · rw [hd] at hr
      cases hr
    · rw [hp] at hr
      unfold UartCmdList.handle at hr
      have hack : list.ackword ≠ 0 := by
        intro h0
        rw [if_neg (by simp [h0])] at hr
        cases hr
      refine h ⟨hc, ?_⟩
      rw [← hw]
      rcases mem_uartCmdList_ack va hm hack with rfl | rfl | rfl | rfl <;> simp

/-- The response as it lies in the buffer. -/
theorem isAnswer_frame {r : Response} (hr : r.Carries (answerData c env)) (hsn : r.sn = c.sn)
    (hpdt : r.pdtType = c.pdtType)
    (hack : ∃ list ∈ uartCmdList va, list.cmdword = c.cmdId ∧ r.ackword = list.ackword)
    {d : UartSendFormat} (htype : d.poll.type = 0) {respdata : UartCmdFormat}
    (hd : d.cmd = r.frame respdata) : IsAnswer va c env d := by
  have hf := hr.isFrame respdata
  obtain ⟨hcheck, -, -, -, hlen, hdata⟩ := hf.decode fun _ _ _ => rfl
  have hp : slice (r.info (answerData c env)).data 0 (answerData c env).length =
      answerData c env := by
    refine List.ext_getElem (by simp) fun i h1 h2 => ?_
    rw [getElem_slice, Nat.zero_add]
    exact List.getD_eq_getElem _ _ h2
  rw [← hd] at hf hcheck hlen hdata
  obtain ⟨list, hm, hw, ha⟩ := hack
  exact ⟨htype, hf.sn.trans hsn, hf.pdtType.trans hpdt, ⟨list, hm, hw, hf.cmdId.trans ha⟩, hlen,
    hdata.trans hp, hcheck⟩

end

/-! ### What a frame appends -/

/-- A buffer is available: the free ring and the send list are lists of buffers, and the first free
buffer is not on the send list. -/
def Available (s : Tx) : Prop := ∃ q b free, Rep s q ∧ (∀ x ∈ q.list, x < uartSendBufNum) ∧
  q.free = b :: free ∧ b ∉ q.list

/-- In a sound state a buffer is available if one is free. -/
theorem available_of_sound {s : Tx} (hs : Sound s) (hf : s.freeRing ≠ []) : Available s := by
  obtain ⟨q, hr, ho, -⟩ := hs
  rw [freeRing_eq hr] at hf
  obtain ⟨b, free, hq⟩ := List.exists_cons_of_ne_nil hf
  exact ⟨q, b, free, hr, fun x hx => ho.lt_of_list (k := q.books) hx, hq, fun hb =>
    ho.disjoint (k := q.books) hb (by simp [Queues.books, hq])⟩

/-- The entries that a step has put at the end of the send list. -/
def appended (s t : Tx) : List UartSendFormat := (t.sendList.drop s.sendList.length).map t.mem

theorem nodup_of_rep {s : Tx} {q : Queues} (hr : Rep s q) : q.list.Nodup :=
  (List.nodup_cons.mp hr.lists.ring.nodup).2.of_map

theorem length_le_of_lt {l : List ℕ} (hnd : l.Nodup) (hlt : ∀ x ∈ l, x < uartSendBufNum) :
    l.length ≤ uartSendBufNum := by
  have hsub : l ⊆ List.range uartSendBufNum := fun b hb => List.mem_range.mpr (hlt b hb)
  have := (List.subperm_of_subset hnd hsub).length_le
  rwa [List.length_range] at this

/-- A response takes the available buffer and appends it. -/
theorem queueResponse_available {s : Tx} (ha : Available s) (hl : s.locked = false) (r : Response) :
    ∃ t b, queueResponse r s = .next (t, [.produce b]) ∧ t.sendList = s.sendList ++ [b] ∧
      (t.mem b).poll.type = 0 ∧ (t.mem b).cmd = r.frame (s.mem b).cmd := by
  obtain ⟨q, b, free, hr, hlt, hf, hb⟩ := ha
  have hq : q.locked = false := by rw [← hr.locked]; exact hl
  obtain ⟨H, hp, hlink⟩ := hr.enqueue hf hb hq
  obtain ⟨t, ht, hr'⟩ := hlink ⟨b, { (s.mem b).poll with type := 0 }, r.frame (s.mem b).cmd⟩
    s.uartSendSn
  have hblt : b < uartSendBufNum := hr.lists.pool.lt b (by simp [hf])
  have hnd : (q.list ++ [b]).Nodup := by
    rw [List.nodup_append]
    exact ⟨nodup_of_rep hr, by simp, fun x hx y hy he => by
      rw [he, List.mem_singleton.mp hy] at hx; exact hb hx⟩
  have hlen : (q.list ++ [b]).length ≤ uartSendBufNum := by
    refine length_le_of_lt hnd fun x hx => ?_
    rcases List.mem_append.mp hx with hx | hx
    · exact hlt x hx
    · rw [List.mem_singleton.mp hx]
      exact hblt
  have hlist : s.sendList = q.list := sendList_eq hr (by
    rw [List.length_append] at hlen; omega)
  refine ⟨t, b, ?_, ?_, ?_, ?_⟩
  · unfold queueResponse
    rw [if_neg (by simp [hl]), hp, Outcome.next_bind]
    dsimp only at ht ⊢
    rw [ht]
    rfl
  · rw [hlist, sendList_eq hr' (by simpa [Queues.list] using hlen)]
    simp [Queues.list]
  · simp [hr'.mem]
  · simp [hr'.mem]

/-- A search of the send list leaves the links alone. -/
theorem ackLoop_heap {sn : UInt8} {s t : Tx} : ∀ {fuel : ℕ} {p : Option Addr},
    ackLoop sn s fuel p = .next t → t.heap = s.heap
  | 0, _, h => by cases h
  | fuel + 1, p, h => by
    rw [ackLoop] at h
    split_ifs at h
    · cases h
      rfl
    · obtain ⟨p', -, h⟩ := Outcome.bind_eq_next.mp h
      obtain ⟨parray, -, h⟩ := Outcome.bind_eq_next.mp h
      split_ifs at h
      · cases h
        rfl
      · exact ackLoop_heap h

theorem acknowledge_heap {sn : UInt8} {s t : Tx} {es : List Event}
    (h : acknowledge sn s = .next (t, es)) : t.heap = s.heap := by
  unfold acknowledge at h
  split_ifs at h
  obtain ⟨t', ht, h⟩ := Outcome.bind_eq_next.mp h
  cases h
  exact ackLoop_heap ht

theorem recv_heap {p : Parsed} {s t : Tx} {es : List Event} (hp : ∀ r, p ≠ .respond r)
    (h : recv p s = .next (t, es)) : t.heap = s.heap := by
  cases p with
  | dropped =>
    cases h
    rfl
  | respond r => exact absurd rfl (hp r)
  | acknowledge sn reply => exact acknowledge_heap h

section

variable {va : List UInt8 → List UInt8} {c : UartCmdFormat} {env : Env} {s t : Process}

theorem step_frame {effects : List Effect} (h : s.step va (.frame c env) = .next (t, effects)) :
    uartProtocolParse va c env s.statics s.tx = .next (t.statics, t.tx, effects) := by
  obtain ⟨⟨v, u, es⟩, hv, h⟩ := Outcome.bind_eq_next.mp h
  cases h
  exact hv

/-- **A frame that asks** appends its answer, if a buffer is available. -/
theorem step_asks (h : Asks c) (hL : c.len ≤ 128) (hp : (answerData c env).length ≤ 128)
    (ha : Available s.tx) (hl : s.tx.locked = false) : ∃ t effects b,
      s.step va (.frame c env) = .next (t, effects) ∧ t.tx.sendList = s.tx.sendList ++ [b] ∧
        IsAnswer va c env (t.tx.mem b) := by
  obtain ⟨r, hr, hc, hsn, hpdt, hack⟩ :=
    parse_of_asks va { env with httpSendSn := s.statics.httpSendSn } h hL
  obtain ⟨t, b, ht, hlist, htype, hcmd⟩ := queueResponse_available ha hl r
  have hfit : ∀ i ∈ r.indices, i < uartProcotolMaxLen := by
    intro i hi
    rw [hc.indices_eq, List.mem_range] at hi
    exact Nat.lt_of_lt_of_le hi (Nat.succ_le_succ hp)
  have hparse := uartProtocolParse_eq va c env s.statics s.tx hr fun r' he => by
    cases he
    exact hfit
  have hrecv : recv (.respond r) s.tx = .next (t, [.produce b]) := ht
  rw [hrecv, Outcome.next_bind] at hparse
  have hstep : s.step va (.frame c env) = .next
      (⟨s.statics.after c (.respond r) [.produce b], t⟩, effectsOf (.respond r)) := by
    unfold Process.step
    dsimp only
    rw [hparse]
    rfl
  exact ⟨_, _, b, hstep, hlist, isAnswer_frame va env hc hsn hpdt hack htype hcmd⟩

/-- **A frame that does not ask** leaves the send list as it is. -/
theorem step_not_asks (h : ¬ Asks c) {effects : List Effect}
    (hs : s.step va (.frame c env) = .next (t, effects)) : t.tx.sendList = s.tx.sendList := by
  have hheap : t.tx.heap = s.tx.heap := by
    have hparse := step_frame hs
    have hno := parse_of_not_asks va { env with httpSendSn := s.statics.httpSendSn } h
    rw [uartProtocolParse_eq va c env s.statics s.tx rfl fun r hr => absurd hr (hno r)] at hparse
    obtain ⟨⟨u, es⟩, hu, he⟩ := Outcome.bind_eq_next.mp hparse
    obtain ⟨-, rfl, -⟩ : _ ∧ u = t.tx ∧ _ := by simpa using he
    exact recv_heap hno hu
  unfold Tx.sendList
  rw [hheap]

/-- The answers appended in a run. -/
def answered (va : List UInt8 → List UInt8) : Process → List Act → List UartSendFormat
  | _, [] => []
  | s, a :: as =>
    match s.next va a with
    | none => []
    | some t =>
      match a with
      | .frame _ _ => appended s.tx t.tx ++ answered va t as
      | .task _ => answered va t as

/-- What holds of a step that handles a frame: if it asks, and the lock is free, it is answered, and
no frame moves or removes an entry. -/
def Appends (va : List UInt8 → List UInt8) (s : Process) (a : Act) : Prop :=
  ∀ c env, a = .frame c env →
    (Asks c → s.tx.locked = false → ∃ t, s.next va a = some t) ∧
      ∀ t, s.next va a = some t → s.tx.sendList <+: t.tx.sendList

/-- The condition on a step: a buffer is available to a frame that asks. -/
def Supplied (s : Process) (a : Act) : Prop :=
  ∀ c env, a = .frame c env → Asks c → Available s.tx

theorem next_eq_some {a : Act} :
    s.next va a = some t ↔ ∃ effects, s.step va a = .next (t, effects) := by
  unfold Process.next
  constructor
  · intro h
    obtain ⟨⟨u, effects⟩, hu, rfl⟩ := Option.map_eq_some_iff.mp h
    exact ⟨effects, Outcome.toOption_eq_some.mp hu⟩
  · rintro ⟨effects, h⟩
    rw [h]
    rfl

/-- A response waits for the lock. -/
theorem unlocked_of_step (h : Asks c) (hL : c.len ≤ 128) (hp : (answerData c env).length ≤ 128)
    {effects : List Effect} (hs : s.step va (.frame c env) = .next (t, effects)) :
    s.tx.locked = false := by
  obtain ⟨r, hr, hc, -⟩ := parse_of_asks va { env with httpSendSn := s.statics.httpSendSn } h hL
  have hparse := step_frame hs
  rw [uartProtocolParse_eq va c env s.statics s.tx hr fun r' he => by
    cases he
    intro i hi
    rw [hc.indices_eq, List.mem_range] at hi
    exact Nat.lt_of_lt_of_le hi (Nat.succ_le_succ hp)] at hparse
  by_contra hl
  have hrecv : recv (.respond r) s.tx = .blocked := by
    show queueResponse r s.tx = .blocked
    rw [queueResponse, if_pos (by simpa using hl)]
  rw [hrecv] at hparse
  cases hparse

/-- What a frame that asks adds to the answers. -/
theorem appended_asks (h : Asks c) (hL : c.len ≤ 128) (hp : (answerData c env).length ≤ 128)
    (ha : Available s.tx) (hs : s.next va (.frame c env) = some t) :
    ∃ d, appended s.tx t.tx = [d] ∧ IsAnswer va c env d := by
  obtain ⟨effects, hs⟩ := next_eq_some.mp hs
  obtain ⟨t', effects', b, ht', hlist, hans⟩ :=
    step_asks h hL hp ha (unlocked_of_step h hL hp hs)
  rw [hs] at ht'
  cases ht'
  exact ⟨_, by simp [appended, hlist], hans⟩

theorem appended_not_asks (h : ¬ Asks c) (hs : s.next va (.frame c env) = some t) :
    appended s.tx t.tx = [] := by
  obtain ⟨effects, hs⟩ := next_eq_some.mp hs
  simp [appended, step_not_asks h hs]

/-- Frame by frame. -/
theorem appends_step {a : Act} (hL : ∀ c env, a = .frame c env → c.len ≤ 128)
    (hp : ∀ c env, a = .frame c env → Asks c → (answerData c env).length ≤ 128)
    (hs : Supplied s a) : Appends va s a := by
  rintro c env rfl
  have hL := hL c env rfl
  constructor
  · intro h hl
    obtain ⟨t, effects, b, ht, -⟩ :=
      step_asks h hL (hp c env rfl h) (hs c env rfl h) hl
    exact ⟨t, next_eq_some.mpr ⟨effects, ht⟩⟩
  · intro t ht
    obtain ⟨effects, ht⟩ := next_eq_some.mp ht
    by_cases h : Asks c
    · have hl := unlocked_of_step h hL (hp c env rfl h) ht
      obtain ⟨t', effects', b, ht', hlist, -⟩ :=
        step_asks h hL (hp c env rfl h) (hs c env rfl h) hl
      rw [ht] at ht'
      cases ht'
      rw [hlist]
      exact List.prefix_append _ _
    · simp only [step_not_asks h ht, List.prefix_rfl]

/-- Run by run: the induction is on the steps, and nothing but the frames themselves is remembered.
-/
theorem answered_run : ∀ {s t : Process} {as : List Act},
    (∀ x ∈ calls as, x.1.len ≤ 128) →
      (∀ x ∈ calls as, Asks x.1 → (answerData x.1 x.2).length ≤ 128) →
        Steps (Process.next va) Supplied s as → exec (Process.next va) s as = some t →
          List.Forall₂ (fun x d => IsAnswer va x.1 x.2 d) ((calls as).filter (Asks ·.1))
            (answered va s as)
  | s, t, [], _, _, _, _ => by simp [calls, answered]
  | s, t, .task a :: as, hL, hp, hs, h => by
    obtain ⟨u, hu, h⟩ := Option.bind_eq_some_iff.mp h
    have hcalls : ∀ x ∈ calls as, x.1.len ≤ 128 := hL
    have ih := answered_run hcalls hp (hs.2 u hu) h
    rw [answered, hu]
    exact ih
  | s, t, .frame c env :: as, hL, hp, hs, h => by
    obtain ⟨u, hu, h⟩ := Option.bind_eq_some_iff.mp h
    have ih := answered_run (fun x hx => hL x (List.mem_cons_of_mem _ hx))
      (fun x hx => hp x (List.mem_cons_of_mem _ hx)) (hs.2 u hu) h
    rw [answered, hu, calls, List.filter_cons]
    dsimp only
    by_cases hask : Asks c
    · obtain ⟨d, hd, hans⟩ := appended_asks hask (hL (c, env) (by simp [calls]))
        (hp (c, env) (by simp [calls]) hask) (hs.1 c env rfl hask) hu
      rw [if_pos (by simpa using hask), hd]
      exact .cons hans ih
    · rw [if_neg (by simpa using hask), appended_not_asks hask hu]
      exact ih

theorem appends_run : ∀ {s : Process} {as : List Act}, (∀ x ∈ calls as, x.1.len ≤ 128) →
    (∀ x ∈ calls as, Asks x.1 → (answerData x.1 x.2).length ≤ 128) →
      Steps (Process.next va) Supplied s as → Steps (Process.next va) (Appends va) s as
  | _, [], _, _, _ => trivial
  | s, .task a :: as, hL, hp, hs =>
    have hcalls : ∀ x ∈ calls as, x.1.len ≤ 128 := hL
    ⟨fun c env he => (by cases he), fun t ht => appends_run hcalls hp (hs.2 t ht)⟩
  | s, .frame c env :: as, hL, hp, hs => by
    refine ⟨appends_step (fun c' env' he => ?_) (fun c' env' he => ?_) hs.1, fun t ht =>
      appends_run (fun x hx => hL x (List.mem_cons_of_mem _ hx))
        (fun x hx => hp x (List.mem_cons_of_mem _ hx)) (hs.2 t ht)⟩
    · cases he
      exact hL (c, env) (by simp [calls])
    · cases he
      exact hp (c, env) (by simp [calls])

end

/-- The buffer with the frame `queStaFrame 4`. -/
def queStaBuf : UartCmdFormat := overlay (queStaFrame 4) (Framer.init (filled 0)).uartRecvBuf

end MultiPortConvertor.Uart.Answers
