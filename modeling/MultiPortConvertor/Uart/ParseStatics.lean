import MultiPortConvertor.Uart.Transmit

/-! # `uart_protocol_parse` and its file-level variables

A response is put together in the memory of a buffer through variables of the file that keep their
values from one frame to the next: `Respdata` points to the frame under construction, `Respdatalen`
counts what is in it, `sendpdata` is the buffer, `Data_p` the frame received. A step of the transmit
side treats a frame at once (`Transmit.recv`); here the variables stand as the source has them, and
a write behind `data` is a fault. `uartProtocolParse_eq` says that the two agree, whatever the
variables held before: only `http_send_sn` is carried over. -/

namespace MultiPortConvertor.Uart.ParseStatics

open MultiPortConvertor.Lib.Bytes MultiPortConvertor.Lib.Outcomes
open MultiPortConvertor.Tool.BufFactory MultiPortConvertor.Uart.Format
open MultiPortConvertor.Uart.Dispose MultiPortConvertor.Uart.Handlers MultiPortConvertor.Uart.Parse
open MultiPortConvertor.Uart.Transmit

/-- The variables. A pointer to the memory of a buffer is the number of the buffer, `Respdata` the
buffer that its frame lies in, and `Data_p` is given by the frame there. -/
structure Statics where
  dataP : Option UartCmdFormat
  respdatalen : ℕ
  sendpdata : Option ℕ
  respdata : Option ℕ
  httpSendSn : UInt8

/-- At the start of the process. -/
def Statics.init : Statics := ⟨none, 0, none, none, 0⟩

/-- The frame of a buffer changed. -/
def setCmd (b : ℕ) (cmd : UartCmdFormat) (s : Tx) : Tx := s.setMem b { s.mem b with cmd := cmd }

/-- `Respdata->data[i] = b`. -/
def putData (respdata : Option ℕ) (s : Tx) (w : ℕ × UInt8) : Outcome Tx := do
  let b ← .ofOption respdata
  if w.1 < uartProcotolMaxLen then return setCmd b (store (s.mem b).cmd (7 + w.1) w.2) s
  else .fault

/-- A buffer is taken, and the header of the response written. -/
def beginResponse (list : UartCmdList) (v : Statics) (s : Tx) : Outcome (Statics × Tx) := do
  let dataP ← .ofOption v.dataP
  let (b, H) ← bufFactoryProduce gUartSendBuf s.heap
  let s := { s with heap := H }
  let c := (s.mem b).cmd
  let c := store c 0 0xD0
  let c := store c 3 0
  let c := store c 4 dataP.sn
  let c := store c 5 dataP.pdtType
  let c := store c 6 list.ackword
  return ({ v with sendpdata := some b, respdata := some b },
    s.setMem b { s.mem b with buf := b, cmd := c })

/-- `list->callback()`. -/
def callBack (list : UartCmdList) (env : Env) (v : Statics) (s : Tx) :
    Outcome (Statics × Tx × List Effect) := do
  let dataP ← .ofOption v.dataP
  let reply := list.callback dataP { env with httpSendSn := v.httpSendSn }
    ⟨[], v.respdatalen, v.httpSendSn, []⟩
  let s ← reply.writes.foldlM (putData v.respdata) s
  return ({ v with respdatalen := reply.respdatalen, httpSendSn := reply.httpSendSn }, s,
    reply.effects)

/-- The response is finished and linked. -/
def endResponse (v : Statics) (s : Tx) : Outcome (Statics × Tx) := do
  let v := { v with respdatalen := (v.respdatalen + 4) % 2 ^ 16 }
  let b ← .ofOption v.respdata
  let c := setresplen (s.mem b).cmd v.respdatalen
  let s := setCmd b c s
  let s ← putData v.respdata s
    (v.respdatalen - 4, checkSumCal (UartCmdFormat.fromStaParam c) v.respdatalen)
  let b ← .ofOption v.sendpdata
  let s := s.setPoll b { (s.mem b).poll with type := 0 }
  let s ← linkEntry b s
  return (v, s)

/-- The entry of a send list with the sequence number of the frame is marked. -/
def markEntry (v : Statics) (s : Tx) : Outcome (Statics × Tx) := do
  let dataP ← .ofOption v.dataP
  let s ← ackLoop dataP.sn s (uartSendBufNum + 1) (s.heap .queue).next
  return (v, s)

/-- **`uart_protocol_parse`**; it cannot go on while the lock is taken. -/
def uartProtocolParse (va : List UInt8 → List UInt8) (dataBuf : UartCmdFormat) (env : Env)
    (v : Statics) (s : Tx) : Outcome (Statics × Tx × List Effect) :=
  let v := { v with dataP := some dataBuf }
  if procotolCheck dataBuf = false then .next (v, s, [])
  else match (uartCmdList va).find? fun list => dataBuf.cmdId == list.cmdword with
    | none => .next (v, s, [])
    | some list =>
      let v := { v with respdatalen := 0 }
      if s.locked then .blocked
      else if list.ackword ≠ 0 then do
        let (v, s) ← beginResponse list v s
        let (v, s, effects) ← callBack list env v s
        let (v, s) ← endResponse v s
        return (v, s, effects)
      else do
        let (v, s, effects) ← callBack list env v s
        let (v, s) ← markEntry v s
        return (v, s, effects)

/-! ### What is carried over -/

/-- The buffer that was taken. -/
def taken : List Event → Option ℕ
  | .produce b :: _ => some b
  | _ => none

/-- The variables after a frame, given the record of the step. -/
def Statics.after (v : Statics) (c : UartCmdFormat) (p : Parsed) (es : List Event) : Statics :=
  match p with
  | .dropped => { v with dataP := some c }
  | .respond r => ⟨some c, r.respdatalen, taken es, taken es, r.reply.httpSendSn⟩
  | .acknowledge _ reply =>
    { v with dataP := some c, respdatalen := reply.respdatalen, httpSendSn := reply.httpSendSn }

/-- What the handler hands on. -/
def effectsOf : Parsed → List Effect
  | .dropped => []
  | .respond r => r.reply.effects
  | .acknowledge _ reply => reply.effects

section

variable (s : Tx) (b : ℕ)

@[simp] theorem setCmd_mem (cmd : UartCmdFormat) :
    (setCmd b cmd s).mem b = { s.mem b with cmd := cmd } := by
  simp [setCmd, Tx.setMem]

theorem setCmd_setCmd (cmd cmd' : UartCmdFormat) :
    setCmd b cmd' (setCmd b cmd s) = setCmd b cmd' s := by
  simp [setCmd, Tx.setMem]

theorem setCmd_self : setCmd b (s.mem b).cmd s = s := by
  simp [setCmd, Tx.setMem]

end

/-- The writes of a handler, one after another, are the writes to the frame. -/
theorem foldlM_putData (b : ℕ) : ∀ {ws : List (ℕ × UInt8)} (s : Tx),
    (∀ w ∈ ws, w.1 < uartProcotolMaxLen) →
      ws.foldlM (putData (some b)) s = .next (setCmd b (Response.writeData ws (s.mem b).cmd) s)
  | [], s, _ => by
    rw [List.foldlM_nil, Outcome.pure_eq]
    exact congrArg Outcome.next (setCmd_self s b).symm
  | w :: ws, s, h => by
    have hw : putData (some b) s w = .next (setCmd b (store (s.mem b).cmd (7 + w.1) w.2) s) := by
      simp [putData, h w (by simp)]
    have hws : ∀ x ∈ ws, x.1 < uartProcotolMaxLen := fun x hx => h x (List.mem_cons_of_mem _ hx)
    have ih := foldlM_putData b (setCmd b (store (s.mem b).cmd (7 + w.1) w.2) s) hws
    rw [List.foldlM_cons, hw, Outcome.next_bind, ih, setCmd_mem, setCmd_setCmd]
    rfl

/-- What a handler is given, and what it leaves in the variables. -/
def replyOf (list : UartCmdList) (c : UartCmdFormat) (env : Env) (v : Statics) : Reply :=
  list.callback c { env with httpSendSn := v.httpSendSn }
  (.start { env with httpSendSn := v.httpSendSn })

theorem callBack_eq (list : UartCmdList) {c : UartCmdFormat} (env : Env) {v : Statics} {s : Tx}
    {b : ℕ} (hv : v.dataP = some c) (hn : v.respdatalen = 0) (hb : v.respdata = some b)
    (hw : ∀ w ∈ (replyOf list c env v).writes, w.1 < uartProcotolMaxLen) :
    callBack list env v s = .next
      ({ v with
        respdatalen := (replyOf list c env v).respdatalen
        httpSendSn := (replyOf list c env v).httpSendSn },
        setCmd b (Response.writeData (replyOf list c env v).writes (s.mem b).cmd) s,
        (replyOf list c env v).effects) := by
  have hr : list.callback c { env with httpSendSn := v.httpSendSn }
    ⟨[], v.respdatalen, v.httpSendSn, []⟩ =
      replyOf list c env v := by
    rw [hn]
    rfl
  unfold callBack
  rw [hv, hb, Outcome.ofOption_some, Outcome.next_bind]
  dsimp only
  rw [hr, foldlM_putData b s hw]
  rfl

theorem beginResponse_eq {list : UartCmdList} {c : UartCmdFormat} {v : Statics}
    (hv : v.dataP = some c) {r : Response} (hsn : r.sn = c.sn) (hpdt : r.pdtType = c.pdtType)
    (hack : r.ackword = list.ackword) (s : Tx) :
    beginResponse list v s = bufFactoryProduce gUartSendBuf s.heap >>= fun x =>
      .next ({ v with sendpdata := some x.1, respdata := some x.1 },
        Tx.setMem { s with heap := x.2 } x.1
          { s.mem x.1 with buf := x.1, cmd := r.header (s.mem x.1).cmd }) := by
  unfold beginResponse Response.header
  rw [hv, hsn, hpdt, hack, Outcome.ofOption_some, Outcome.next_bind]
  rfl

theorem endResponse_eq {v : Statics} {b n : ℕ} (hs : v.sendpdata = some b)
    (hb : v.respdata = some b) (hn : (v.respdatalen + 4) % 2 ^ 16 = n)
    (hi : n - 4 < uartProcotolMaxLen) (s : Tx) : endResponse v s = linkEntry b (s.setMem
      b { s.mem b with
        poll := { (s.mem b).poll with type := 0 }
        cmd := store (setresplen (s.mem b).cmd n) (7 + (n - 4))
          (checkSumCal (UartCmdFormat.fromStaParam (setresplen (s.mem b).cmd n)) n) }) >>= fun s =>
        .next ({ v with respdatalen := n }, s) := by
  have hset : ∀ c c' poll, (setCmd b c' (setCmd b c s)).setPoll b poll =
      s.setMem b { s.mem b with poll := poll, cmd := c' } := by
    intro c c' poll
    simp [setCmd, Tx.setMem, Tx.setPoll]
  unfold endResponse putData
  rw [hn, hb, hs]
  simp only [Outcome.ofOption_some, Outcome.next_bind, Outcome.pure_eq, setCmd_mem, if_pos hi, hset]

/-- The branch that answers. -/
theorem respond_eq {list : UartCmdList} {c : UartCmdFormat} {env : Env} {v : Statics} {s : Tx}
    {r : Response} (hr : r = ⟨c.sn, c.pdtType, list.ackword, replyOf list c env v⟩)
    (hv : v.dataP = some c) (hn : v.respdatalen = 0)
    (hfit : ∀ i ∈ r.indices, i < uartProcotolMaxLen) (hl : s.locked = false) :
    (do
      let (v, s) ← beginResponse list v s
      let (v, s, effects) ← callBack list env v s
      let (v, s) ← endResponse v s
      return (v, s, effects)) =
    queueResponse r s >>= fun x => .next (v.after c (.respond r) x.2, x.1, r.reply.effects) := by
  have hreply : ∀ b, replyOf list c env { v with sendpdata := some b, respdata := some b } =
      r.reply :=
    fun b => by rw [hr]; rfl
  have hw : ∀ w ∈ r.reply.writes, w.1 < uartProcotolMaxLen := fun w hw =>
    hfit _ (List.mem_append_left _ (List.mem_map_of_mem hw))
  have hi : r.respdatalen - 4 < uartProcotolMaxLen := hfit _ (by simp [Response.indices])
  rw [beginResponse_eq (r := r) hv (by rw [hr]) (by rw [hr]) (by rw [hr])]
  unfold queueResponse
  rw [if_neg (by simp [hl])]
  rcases bufFactoryProduce gUartSendBuf s.heap with ⟨b, H⟩ | _ | _ | _
  · have hcall := callBack_eq list env
      (v := { v with sendpdata := some b, respdata := some b })
      (s := Tx.setMem { s with heap := H } b
        { s.mem b with buf := b, cmd := r.header (s.mem b).cmd }) hv hn rfl
      (by rw [hreply]; exact hw)
    rw [hreply] at hcall
    simp only [Outcome.next_bind, Outcome.pure_eq]
    rw [hcall, Outcome.next_bind, endResponse_eq (n := r.respdatalen) rfl rfl rfl hi]
    have hd : v.after c (.respond r) [.produce b] =
        ⟨v.dataP, r.respdatalen, some b, some b, r.reply.httpSendSn⟩ := by rw [hv]; rfl
    simp only [setCmd, Tx.setMem, Function.update_self, Function.update_idem]
    rw [Response.frame]
    cases linkEntry b _ with
    | next s => simp [hd]
    | blocked => rfl
    | exit => rfl
    | fault => rfl
  · rfl
  · rfl
  · rfl

/-- The branch that marks; its handlers write nothing. -/
theorem mark_eq {list : UartCmdList} {c : UartCmdFormat} {env : Env} {v : Statics} {s : Tx}
    (hv : v.dataP = some c) (hn : v.respdatalen = 0) (hw : (replyOf list c env v).writes = [])
    (hl : s.locked = false) :
    (do
      let (v, s, effects) ← callBack list env v s
      let (v, s) ← markEntry v s
      return (v, s, effects)) =
    acknowledge c.sn s >>= fun x => .next
      (v.after c (.acknowledge c.sn (replyOf list c env v)) x.2, x.1,
        (replyOf list c env v).effects) := by
  have hr : list.callback c { env with httpSendSn := v.httpSendSn }
    ⟨[], v.respdatalen, v.httpSendSn, []⟩ =
      replyOf list c env v := by
    rw [hn]
    rfl
  unfold callBack markEntry acknowledge Statics.after
  rw [hv, if_neg (by simp [hl]), Outcome.ofOption_some, Outcome.next_bind]
  dsimp only
  rw [hr, hw, List.foldlM_nil, Outcome.pure_eq, Outcome.next_bind]
  simp only [Outcome.next_bind, Outcome.pure_eq, Outcome.ofOption_some]
  cases ackLoop c.sn s (uartSendBufNum + 1) (s.heap .queue).next with
  | next s => rfl
  | blocked => rfl
  | exit => rfl
  | fault => rfl

theorem writes_of_mark {va : List UInt8 → List UInt8} {list : UartCmdList}
    (hm : list ∈ uartCmdList va) (hack : list.ackword = 0) (c : UartCmdFormat) (env : Env)
    (v : Statics) : (replyOf list c env v).writes = [] := by
  rcases mem_uartCmdList_rsp va hm hack with rfl | ⟨-, hc⟩
  · rfl
  · unfold replyOf
    rw [hc]
    rfl

/-- **What a frame does does not depend on the variables**, but for `http_send_sn`: a response that
fits is the one that the frame alone determines, whatever the frames before it left behind. -/
theorem uartProtocolParse_eq (va : List UInt8 → List UInt8) (c : UartCmdFormat) (env : Env)
    (v : Statics) (s : Tx) {p : Parsed}
    (hp : Parse.uartProtocolParse va c { env with httpSendSn := v.httpSendSn } = p)
    (hfit : ∀ r, p = .respond r → ∀ i ∈ r.indices, i < uartProcotolMaxLen) :
    uartProtocolParse va c env v s =
      recv p s >>= fun x => .next (v.after c p x.2, x.1, effectsOf p) := by
  unfold uartProtocolParse
  cases hc : procotolCheck c with
  | false =>
    rw [uartProtocolParse_rejected va _ hc] at hp
    subst hp
    rfl
  | true =>
    unfold Parse.uartProtocolParse at hp
    rw [if_neg (by simp [hc])] at hp
    rw [if_neg (by simp)]
    cases hf : (uartCmdList va).find? fun list => c.cmdId == list.cmdword with
    | none =>
      rw [hf] at hp
      subst hp
      rfl
    | some list =>
      have hm := List.mem_of_find?_eq_some hf
      rw [hf] at hp
      dsimp only at hp ⊢
      unfold UartCmdList.handle at hp
      cases hl : s.locked with
      | true =>
        rw [if_pos rfl]
        split_ifs at hp
        · subst hp
          simp [recv, queueResponse, hl]
        · subst hp
          simp [recv, acknowledge, hl]
      | false =>
        rw [if_neg (by simp)]
        by_cases hack : list.ackword = 0
        · rw [if_neg (by simp [hack])] at hp ⊢
          subst hp
          exact mark_eq rfl rfl (writes_of_mark hm hack _ _ _) hl
        · rw [if_pos hack] at hp ⊢
          subst hp
          exact respond_eq rfl rfl rfl (hfit _ rfl) hl

/-! ### The process -/

/-- The process: the variables of `uart_protocol.c` and the transmit side. -/
structure Process where
  statics : Statics
  tx : Tx

/-- A step: `uart_recv_tsk` hands the frame that it has received to `uart_protocol_parse`, in the
circumstances `env`, or another task takes a step of its own. -/
inductive Act where
  | frame (c : UartCmdFormat) (env : Env)
  | task (a : Action)

namespace Process

variable (va : List UInt8 → List UInt8)

def step (s : Process) : Act → Outcome (Process × List Effect)
  | .frame c env => do
    let (v, t, effects) ← uartProtocolParse va c env s.statics s.tx
    return (⟨v, t⟩, effects)
  | .task (.recv _) => .blocked
  | .task a => do
    let (t, _) ← s.tx.step a
    return ({ s with tx := t }, [])

/-- The next state, for runs. -/
def next (s : Process) (a : Act) : Option Process := (s.step va a).toOption.map Prod.fst

end Process

/-- The frames handled, each with its circumstances. -/
def calls : List Act → List (UartCmdFormat × Env)
  | [] => []
  | .frame c env :: as => (c, env) :: calls as
  | .task _ :: as => calls as

end MultiPortConvertor.Uart.ParseStatics
