import MultiPortConvertor.Net.UploadResult
import MultiPortConvertor.Uart.Release
import Mathlib.Data.List.Find

/-! # Which entry an answer marks

A frame whose command has no response marks the first entry of the send list with its sequence
number: the type of the entry and its command are not compared, and the host's own
`CMD_HTTP_UP_DATA` takes the same branch as an answer. Its callback makes the upload and links the
notifications of the result before the list is searched, so the search can also stop at one of
these. The right entry is marked exactly when the first one with the number is the right one, or
nothing is left to mark (`handleFrame_acknowledges_iff`). -/

namespace MultiPortConvertor.Uart.Acknowledge

open MultiPortConvertor.Lib.Outcomes MultiPortConvertor.Lib.Runs
open MultiPortConvertor.Lib.Bytes MultiPortConvertor.Lib.Transfers MultiPortConvertor.App.System
open MultiPortConvertor.Net.HttpProtocol MultiPortConvertor.Net.UploadResult
open MultiPortConvertor.Uart.Format MultiPortConvertor.Uart.Grammar MultiPortConvertor.Uart.Dispose
open MultiPortConvertor.Uart.Handlers MultiPortConvertor.Uart.Parse MultiPortConvertor.Uart.Transmit
open MultiPortConvertor.Uart.TransmitQueues MultiPortConvertor.Uart.Ownership
open MultiPortConvertor.Uart.Refinement MultiPortConvertor.Uart.Release

/-! ### The callback and the search -/

/-- What the callback hands to `uart_protocol_dispose`: the notifications of the upload, if it makes
one. -/
def callbackNtfs (o : Outside) (curl : Option (Attempt × Attempt × Attempt)) (h : Http) :
    Parsed → List UartSendInfo
  | .acknowledge _ reply => reply.effects.flatMap fun
    | .popen _ => []
    | .postRecordUrl _ => (postRecordUrl o curl h).2
  | _ => []

/-- The calls of `uart_protocol_dispose`, one after the other. -/
def disposeAll : List UartSendInfo → Tx → Outcome (Tx × List Event)
  | [], s => .next (s, [])
  | info :: infos, s => do
    let (s, es) ← uartProtocolDispose info s
    let (s, es') ← disposeAll infos s
    return (s, es ++ es')

/-- `list->callback()`, which disposes of `ntfs`, and what `uart_protocol_parse` does behind it. -/
def handleFrame (ntfs : List UartSendInfo) (p : Parsed) (s : Tx) : Outcome (Tx × List Event) := do
  let (s, es) ← disposeAll ntfs s
  let (s, es') ← recv p s
  return (s, es ++ es')

/-- A pending notification that the frame answers; `CMD_HTTP_UP_DATA` answers none. -/
structure Awaits (c : UartCmdFormat) (d : UartSendFormat) : Prop where
  notAsk : c.cmdId ≠ 0x31
  type : d.poll.type = 1
  pending : d.poll.freeFlag = 0
  sn : d.cmd.sn = c.sn
  cmdId : d.cmd.cmdId = c.cmdId

/-- **Acknowledgement matching**: only a pending notification that the frame answers is marked, and
if there is one, one is marked. -/
structure Acknowledges (c : UartCmdFormat) (list : List ℕ) (mem mem' : ℕ → UartSendFormat) :
    Prop where
  only : ∀ b ∈ list, (mem b).poll.freeFlag = 0 → (mem' b).poll.freeFlag = 1 → Awaits c (mem b)
  marked : (∃ b ∈ list, Awaits c (mem b)) →
    ∃ b ∈ list, Awaits c (mem b) ∧ (mem' b).poll.freeFlag = 1

/-- The first entry with the sequence number, if there is one, is a pending notification that the
frame answers, or marked already while no entry waits for the frame. -/
def FirstFits (c : UartCmdFormat) (list : List ℕ) (mem : ℕ → UartSendFormat) : Prop :=
  ∀ b, (list.find? fun b => (mem b).cmd.sn = c.sn) = some b →
    Awaits c (mem b) ∨ ((mem b).poll.freeFlag ≠ 0 ∧ ∀ x ∈ list, ¬ Awaits c (mem x))

/-- None of the entries linked in the buffers `bufs`, with the numbers from `sn` on, is marked: it
has another number than the frame, or its flag is set already. -/
def OwnSpared (c : UartCmdFormat) (bufs : List ℕ) (sn : UInt8) (mem : ℕ → UartSendFormat) : Prop :=
  ∀ k b, bufs[k]? = some b → sn + UInt8.ofNat k = c.sn → (mem b).poll.freeFlag ≠ 0

section

variable {s : Tx} {c : UartCmdFormat} {list free bufs : List ℕ} {mem : ℕ → UartSendFormat}

/-- Only frames whose command has no response look for an entry, with their own number. -/
theorem entry_of_acknowledge {va : List UInt8 → List UInt8} {env : Env} {sn : UInt8} {reply : Reply}
    (h : uartProtocolParse va c env = .acknowledge sn reply) :
    sn = c.sn ∧ ∃ e ∈ uartCmdList va, e.cmdword = c.cmdId ∧ e.ackword = 0 ∧
      reply = e.callback c env (.start env) := by
  cases hc : procotolCheck c with
  | false =>
    rw [uartProtocolParse_rejected va env hc] at h
    cases h
  | true =>
    rcases uartProtocolParse_accepted va env hc with ⟨hd, -⟩ | ⟨e, hm, hw, hp⟩
    · rw [hd] at h
      cases h
    · rw [hp, UartCmdList.handle] at h
      split_ifs at h with hack
      cases h
      exact ⟨rfl, e, hm, hw, not_not.mp hack, rfl⟩

/-- What the search does to the memory: the first entry with the number is marked. -/
def mark (c : UartCmdFormat) (list : List ℕ) (mem : ℕ → UartSendFormat) : ℕ → UartSendFormat :=
  match list.find? fun b => (mem b).cmd.sn = c.sn with
  | none => mem
  | some b => setPoll mem b { (mem b).poll with freeFlag := 1 }

theorem acknowledge_eq (hl : Lists s.heap free list) (hlen : list.length ≤ uartSendBufNum)
    (hp : s.pollTsk = .sleep) :
    acknowledge c.sn s = .next ({ s with mem := mark c list s.mem }, []) := by
  have hlocked : s.locked = false := by simp [Tx.locked, hp]
  have hloop := ackLoop_eq (s := s) c.sn (l := []) (r := list) (uartSendBufNum + 1) hl (by omega)
  unfold acknowledge mark
  rw [hlocked, if_neg (by simp), hl.next_head, hloop]
  cases list.find? fun b => (s.mem b).cmd.sn = c.sn with
  | none => rfl
  | some b => rfl

/-- **When the search finds the right entry.** -/
theorem acknowledges_mark_iff : Acknowledges c list mem (mark c list mem) ↔
    FirstFits c list mem := by
  have hnone : ∀ b, Awaits c (mem b) → b ∈ list →
      (list.find? fun b => (mem b).cmd.sn = c.sn) ≠ none := by
    intro b hb hm hn
    exact List.find?_eq_none.mp hn b hm (by simp [hb.sn])
  unfold FirstFits mark
  cases hf : list.find? fun b => (mem b).cmd.sn = c.sn with
  | none =>
    refine ⟨fun _ b hb => (by cases hb), fun _ => ⟨fun b _ h0 h1 => ?_, fun ⟨b, hm, hb⟩ => ?_⟩⟩
    · rw [h0] at h1
      cases h1
    · exact absurd hf (hnone b hb hm)
  | some b =>
    have hbm : b ∈ list := List.mem_of_find?_eq_some hf
    constructor
    · intro ha x hx
      cases hx
      by_cases hb : Awaits c (mem b)
      · exact .inl hb
      refine .inr ⟨fun h0 => hb (ha.only b hbm h0 (by rw [setPoll_poll_self])), fun x hx hax => ?_⟩
      -- the entry marked is the first one, which does not wait
      obtain ⟨y, -, hay, hy⟩ := ha.marked ⟨x, hx, hax⟩
      by_cases he : y = b
      · exact hb (he ▸ hay)
      · rw [setPoll_poll_of_ne mem b _ he, hay.pending] at hy
        cases hy
    · intro hfit
      have hfit := hfit b rfl
      constructor
      · intro x hx h0 h1
        by_cases he : x = b
        · subst he
          exact hfit.resolve_right fun h => h.1 h0
        · rw [setPoll_poll_of_ne mem b _ he, h0] at h1
          cases h1
      · rintro ⟨x, hx, hax⟩
        rcases hfit with hb | ⟨-, hno⟩
        · exact ⟨b, hbm, hb, by rw [setPoll_poll_self]⟩
        · exact absurd hax (hno x hx)

/-- A call of `uart_protocol_dispose` takes the first free buffer and links it. -/
theorem dispose_linked {b : ℕ} (hl : Lists s.heap (b :: free) list) (hb : b ∉ list)
    (hp : s.pollTsk = .sleep) (info : UartSendInfo) :
    ∃ u, uartProtocolDispose info s = .next (u, [.produce b]) ∧ Lists u.heap free (list ++ [b]) ∧
      u.pollTsk = .sleep ∧ u.uartSendSn = s.uartSendSn + 1 ∧ (∀ x, x ≠ b → u.mem x = s.mem x) ∧
        (u.mem b).cmd.sn = s.uartSendSn ∧ (u.mem b).poll.freeFlag = (s.mem b).poll.freeFlag := by
  obtain ⟨H, hprod, hl⟩ := hl.produce
  obtain ⟨H', hadd, hl⟩ := hl.link hb
  have hunlocked : s.locked = false := by simp [Tx.locked, hp]
  have hdispose : uartProtocolDispose info s = .next ({ s with
      heap := H'
      uartSendSn := s.uartSendSn + 1
      mem := Function.update s.mem b ⟨b, { (s.mem b).poll with type := info.pollType.toNat },
        disposeFrame info s.uartSendSn (s.mem b).cmd⟩ }, [.produce b]) := by
    unfold uartProtocolDispose linkEntry
    rw [hunlocked, if_neg (by simp), hprod]
    simp only [Outcome.next_bind, Tx.setMem]
    rw [hadd]
    rfl
  refine ⟨_, hdispose, hl, hp, rfl, fun x hx => Function.update_of_ne hx _ _, ?_, ?_⟩
  · dsimp only
    rw [Function.update_self]
    exact (disposeFrame_header (by omega)).trans (by simp [disposeHeader])
  · dsimp only
    rw [Function.update_self]

/-- **The callback's notifications** are linked behind the entries, in the first free buffers, with
the numbers from `uart_send_sn` on; their flags, and the other buffers, stay as they are. -/
theorem disposeAll_spec : ∀ {ntfs : List UartSendInfo} {s : Tx} {bufs free list : List ℕ},
    Lists s.heap (bufs ++ free) list → (∀ b ∈ bufs, b ∉ list) → s.pollTsk = .sleep →
      ntfs.length = bufs.length → ∃ t es, disposeAll ntfs s = .next (t, es) ∧
        Lists t.heap free (list ++ bufs) ∧ t.pollTsk = .sleep ∧
          (∀ b, b ∉ bufs → t.mem b = s.mem b) ∧
            ∀ k b, bufs[k]? = some b → (t.mem b).cmd.sn = s.uartSendSn + UInt8.ofNat k ∧
              (t.mem b).poll.freeFlag = (s.mem b).poll.freeFlag
  | [], s, [], free, list, hl, _, hp, _ =>
    ⟨s, [], rfl, by simpa using hl, hp, fun _ _ => rfl, fun k b hk => by simp at hk⟩
  | info :: ntfs, s, b :: bufs, free, list, hl, hnew, hp, hlen => by
    have hnd : b ∉ bufs := fun hm =>
      (List.nodup_cons.mp hl.pool.nodup).1 (List.mem_append_left _ hm)
    have hcons : Lists s.heap (b :: (bufs ++ free)) list := hl
    obtain ⟨u, hu, hl, hp, hcount, hother, hsn, hflag⟩ :=
      dispose_linked hcons (hnew b (by simp)) hp info
    have hnew' : ∀ x ∈ bufs, x ∉ list ++ [b] := by
      intro x hx hm
      rcases List.mem_append.mp hm with hm | hm
      · exact hnew x (List.mem_cons_of_mem _ hx) hm
      · exact hnd (List.mem_singleton.mp hm ▸ hx)
    obtain ⟨t, es, ht, hl, hp, hkeep, hnum⟩ := disposeAll_spec hl hnew' hp (by simpa using hlen)
    refine ⟨t, .produce b :: es, ?_, by simpa using hl, hp, fun x hx => ?_, fun k x hk => ?_⟩
    · simp [disposeAll, hu, ht]
    · rw [hkeep x fun hm => hx (List.mem_cons_of_mem _ hm)]
      exact hother x fun he => hx (by simp [he])
    · cases k with
      | zero =>
        obtain rfl : b = x := by simpa using hk
        rw [hkeep b hnd, hsn, hflag]
        exact ⟨(UInt8.add_zero _).symm, rfl⟩
      | succ k =>
        have hk : bufs[k]? = some x := by simpa using hk
        obtain ⟨hsn, hflag⟩ := hnum k x hk
        have hx : x ≠ b := fun he => hnd (he ▸ List.mem_of_getElem? hk)
        refine ⟨?_, by rw [hflag, hother x hx]⟩
        rw [hsn, hcount, UInt8.ofNat_add, UInt8.add_assoc, UInt8.add_comm 1]
        rfl

/-- **What the search finds among the entries that the callback has linked**, seen from the state
before it. -/
theorem firstFits_append {mem' : ℕ → UartSendFormat} {sn : UInt8}
    (hkeep : ∀ b ∈ list, mem' b = mem b)
    (hnum : ∀ k b, bufs[k]? = some b → (mem' b).cmd.sn = sn + UInt8.ofNat k ∧
      (mem' b).poll.freeFlag = (mem b).poll.freeFlag)
    (hask : bufs ≠ [] → c.cmdId = 0x31) (hlen : bufs.length ≤ uartSendBufNum) :
    FirstFits c (list ++ bufs) mem' ↔ FirstFits c list mem ∧
      ((∀ b ∈ list, (mem b).cmd.sn ≠ c.sn) → OwnSpared c bufs sn mem) := by
  have hown : ∀ b ∈ bufs, ¬ Awaits c (mem' b) := fun b hb ha =>
    ha.notAsk (hask (List.ne_nil_of_mem hb))
  have hno : (∀ x ∈ list ++ bufs, ¬ Awaits c (mem' x)) ↔ ∀ x ∈ list, ¬ Awaits c (mem x) := by
    constructor
    · intro h x hx
      rw [← hkeep x hx]
      exact h x (List.mem_append_left _ hx)
    · intro h x hx
      rcases List.mem_append.mp hx with hx | hx
      · rw [hkeep x hx]
        exact h x hx
      · exact hown x hx
  have hfind : (list.find? fun b => (mem' b).cmd.sn = c.sn) =
      list.find? fun b => (mem b).cmd.sn = c.sn :=
    List.find?_congr fun b hb => by simp only [hkeep b hb]
  unfold FirstFits
  rw [List.find?_append, hfind, hno]
  cases hf : list.find? fun b => (mem b).cmd.sn = c.sn with
  | some b =>
    have hb : b ∈ list := List.mem_of_find?_eq_some hf
    have hsn : (mem b).cmd.sn = c.sn := by simpa using List.find?_some hf
    rw [and_iff_left fun hall => absurd hsn (hall b hb)]
    simp only [Option.some_or, Option.some.injEq, forall_eq', hkeep b hb]
  | none =>
    have hall : ∀ b ∈ list, (mem b).cmd.sn ≠ c.sn := by
      intro b hb
      simpa using List.find?_eq_none.mp hf b hb
    have hquiet : ∀ x ∈ list, ¬ Awaits c (mem x) := fun x hx ha => hall x hx ha.sn
    simp only [Option.none_or]
    rw [and_iff_right fun b hb => by cases hb]
    constructor
    · intro hfit _ k b hk hsn
      -- the entry found is this one: fewer than 256 are linked
      have hb : (mem' b).cmd.sn = c.sn := (hnum k b hk).1.trans hsn
      cases hx : bufs.find? fun b => (mem' b).cmd.sn = c.sn with
      | none =>
        exact absurd hb (by simpa using List.find?_eq_none.mp hx b (List.mem_of_getElem? hk))
      | some x =>
        obtain ⟨j, hj⟩ := List.mem_iff_getElem?.mp (List.mem_of_find?_eq_some hx)
        have hxsn : (mem' x).cmd.sn = c.sn := by simpa using List.find?_some hx
        have hjk : j = k := by
          have he : sn + UInt8.ofNat j = sn + UInt8.ofNat k :=
            (hnum j x hj).1.symm.trans ((hxsn.trans hb.symm).trans (hnum k b hk).1)
          have he : j % 256 = k % 256 := by
            simpa using congrArg UInt8.toNat ((UInt8.add_right_inj sn).mp he)
          have hjlt := (List.getElem?_eq_some_iff.mp hj).1
          have hklt := (List.getElem?_eq_some_iff.mp hk).1
          unfold uartSendBufNum at hlen
          omega
        subst hjk
        obtain rfl : x = b := Option.some.inj (hj.symm.trans hk)
        rw [← (hnum j x hj).2]
        exact ((hfit x hx).resolve_left (hown x (List.mem_of_find?_eq_some hx))).1
    · intro hspared b hb
      obtain ⟨k, hk⟩ := List.mem_iff_getElem?.mp (List.mem_of_find?_eq_some hb)
      have hsn : (mem' b).cmd.sn = c.sn := by simpa using List.find?_some hb
      refine .inr ⟨?_, hquiet⟩
      rw [(hnum k b hk).2]
      exact hspared hall k b hk ((hnum k b hk).1.symm.trans hsn)

/-- Only the callback of `CMD_HTTP_UP_DATA` has notifications. -/
theorem cmdId_of_callbackNtfs {va : List UInt8 → List UInt8} {env : Env} {sn : UInt8}
    {reply : Reply} (hc : uartProtocolParse va c env = .acknowledge sn reply) {o : Outside}
    {curl : Option (Attempt × Attempt × Attempt)} {h : Http}
    (hn : callbackNtfs o curl h (.acknowledge sn reply) ≠ []) : c.cmdId = 0x31 := by
  obtain ⟨-, e, hm, hw, hack, rfl⟩ := entry_of_acknowledge hc
  rcases mem_uartCmdList_rsp va hm hack with rfl | ⟨-, hcb⟩
  · exact hw.symm
  · rw [hcb] at hn
    exact absurd rfl hn

end

/-- **When the right entry is acknowledged.** For every content of the send list and every frame
that `uart_protocol_parse` handles without a response, with the buffers `bufs` free for the
notifications of its callback: the callback links them behind the list, and matching holds on this
list exactly when the first entry with the frame's number fits, and none of the callback's own is
the first. -/
theorem handleFrame_acknowledges_iff {s : Tx} {bufs free list : List ℕ}
    (hl : Lists s.heap (bufs ++ free) list) (hlen : (list ++ bufs).length ≤ uartSendBufNum)
    (hnew : ∀ b ∈ bufs, b ∉ list) (hp : s.pollTsk = .sleep) (va : List UInt8 → List UInt8)
    {c : UartCmdFormat} {env : Env} {sn : UInt8} {reply : Reply}
    (hc : uartProtocolParse va c env = .acknowledge sn reply) (o : Outside)
    (curl : Option (Attempt × Attempt × Attempt)) (h : Http)
    (hn : (callbackNtfs o curl h (.acknowledge sn reply)).length = bufs.length) :
    ∃ t es s', disposeAll (callbackNtfs o curl h (uartProtocolParse va c env)) s = .next (t, es) ∧
      handleFrame (callbackNtfs o curl h (uartProtocolParse va c env))
        (uartProtocolParse va c env) s =
        .next (s', es) ∧
      Lists t.heap free (list ++ bufs) ∧
        (Acknowledges c (list ++ bufs) t.mem s'.mem ↔ FirstFits c list s.mem ∧
          ((∀ b ∈ list, (s.mem b).cmd.sn ≠ c.sn) → OwnSpared c bufs s.uartSendSn s.mem)) := by
  obtain rfl : sn = c.sn := (entry_of_acknowledge hc).1
  obtain ⟨t, es, ht, hlt, hpt, hkeep, hnum⟩ := disposeAll_spec hl hnew hp hn
  have hmark := acknowledge_eq (c := c) hlt hlen hpt
  refine ⟨t, es, { t with mem := mark c (list ++ bufs) t.mem }, by rw [hc]; exact ht, ?_, hlt, ?_⟩
  · rw [hc, handleFrame, ht]
    simp [recv, hmark]
  · have hold : ∀ b ∈ list, t.mem b = s.mem b := fun b hb => hkeep b fun hm => hnew b hm hb
    rw [acknowledges_mark_iff]
    refine firstFits_append hold hnum (fun hne => ?_) ?_
    · have hask : callbackNtfs o curl h (.acknowledge c.sn reply) ≠ [] := by
        intro hnil
        rw [hnil] at hn
        exact hne (List.length_eq_zero_iff.mp hn.symm)
      exact cmdId_of_callbackNtfs hc hask
    · rw [List.length_append] at hlen
      omega

theorem exec_of_disposeAll : ∀ {ntfs : List UartSendInfo} {s t : Tx} {es : List Event},
    disposeAll ntfs s = .next (t, es) → exec next s (ntfs.map .dispose) = some t
  | [], s, t, es, h => by
    cases h
    rfl
  | info :: ntfs, s, t, es, h => by
    obtain ⟨⟨u, es⟩, hu, h⟩ := Outcome.bind_eq_next.mp h
    obtain ⟨⟨v, es'⟩, hv, h⟩ := Outcome.bind_eq_next.mp h
    cases h
    have hnext : next s (.dispose info) = some u := by
      rw [next, Tx.step, hu]
      rfl
    rw [List.map_cons, exec, hnext]
    exact exec_of_disposeAll hv

/-- **The callback and the search are steps of a run**: the notifications are disposed of, then the
frame is received. -/
theorem exec_of_handleFrame {ntfs : List UartSendInfo} {p : Parsed} {s s' : Tx} {es : List Event}
    (h : handleFrame ntfs p s = .next (s', es)) :
    exec next s (ntfs.map .dispose ++ [.recv p]) = some s' := by
  obtain ⟨⟨t, es⟩, ht, h⟩ := Outcome.bind_eq_next.mp h
  obtain ⟨⟨u, es'⟩, hu, h⟩ := Outcome.bind_eq_next.mp h
  cases h
  rw [exec_append, exec_of_disposeAll ht]
  simp [exec, next, Tx.step, hu, Outcome.toOption]

/-- A host command with the number of a pending notification. -/
def httpUpDataFrame (sn : UInt8) : UartCmdFormat :=
  overlay [0xC0, 0, 4, 0, sn, 0xA1, 0x31, 0xD2 + sn] (filled 0)

/-- A query with the same number as a notification. -/
def queStaCmd (sn : UInt8) : UartCmdFormat :=
  overlay [0xC0, 0, 4, 0, sn, 0xA1, 0x11, 0xB2 + sn] (filled 0)

/-- The flag and the command of each of the first two buffers. -/
def flags (s : Tx) : List (ℕ × UInt8) :=
  [((s.mem 0).poll.freeFlag, (s.mem 0).cmd.cmdId), ((s.mem 1).poll.freeFlag, (s.mem 1).cmd.cmdId)]

/-- The server cannot be reached. -/
def offline : Option (Attempt × Attempt × Attempt) := some (⟨[], 7⟩, ⟨[], 7⟩, ⟨[], 7⟩)

/-- A host command with the number `sn`, handled while the server cannot be reached. -/
def upload (sn : UInt8) (s : Tx) : Option Tx :=
  let p := uartProtocolParse id (httpUpDataFrame sn) envInit
  (handleFrame (callbackNtfs outsideSample offline httpInit p) p s).toOption.map Prod.fst

/-- `CMD_HTTP_UP_DATA` marks the notification of an inserted device, and on an empty list that of
its own upload; the response to a query hides the notification of the device from its answer. -/
theorem hidInsertNtf_mismatched :
    ((exec next txInit [.dispose (hidInsertNtf 1), .pollLock, .pollEntry, .pollUnlock]).bind
      (upload 0)).map flags = some [(1, 0x20), (0, 0x31)] ∧
    (upload 0 txInit).map flags = some [(1, 0x31), (0, 0)] ∧
    (exec next txInit [.recv (uartProtocolParse id (queStaCmd 0) envInit),
      .dispose (hidInsertNtf 1), .recv (uartProtocolParse id (hidInsertAck 0) envInit)]).map flags =
        some [(1, 0x11), (0, 0x20)] := by
  decide +kernel

/-- The theorem applied to a host command with a notification of the device pending. -/
theorem httpUpDataFrame_acknowledges :
    ∃ s t es s', next txInit (.dispose (hidInsertNtf 1)) = some s ∧
      disposeAll [httpUpDataNtf 2] s = .next (t, es) ∧
      handleFrame [httpUpDataNtf 2] (uartProtocolParse id (httpUpDataFrame 0) envInit) s =
        .next (s', es) ∧
      (Acknowledges (httpUpDataFrame 0) [0, 1] t.mem s'.mem ↔
        FirstFits (httpUpDataFrame 0) [0] s.mem ∧ ((∀ b ∈ [0], (s.mem b).cmd.sn ≠ 0) →
          OwnSpared (httpUpDataFrame 0) [1] s.uartSendSn s.mem)) := by
  have hr₀ := rep_start uartContextInit_txInit
  obtain ⟨s, hs, hr⟩ := step_matches hr₀ (init_booked _) (fun _ => rfl) (.dispose (hidInsertNtf 1))
  have hentry : (⟨0x31, 0, httpUpDataRsp⟩ : UartCmdList) ∈ uartCmdList id := by simp [uartCmdList]
  have hc : uartProtocolParse id (httpUpDataFrame 0) envInit =
      .acknowledge 0 (httpUpDataRsp (httpUpDataFrame 0) envInit (.start envInit)) :=
    uartProtocolParse_of_mem id envInit (by decide) hentry rfl
  have hn : callbackNtfs outsideSample offline httpInit
      (uartProtocolParse id (httpUpDataFrame 0) envInit) = [httpUpDataNtf 2] := by
    rw [hc]
    rfl
  have hl : Lists s.heap ([1] ++ (List.range uartSendBufNum).drop 2) [0] := hr.lists
  obtain ⟨t, es, s', ht, hs', -, ha⟩ := handleFrame_acknowledges_iff (s := s)
    (c := httpUpDataFrame 0) hl (by decide) (by decide) hr.pollTsk id hc outsideSample offline
    httpInit (by rw [← hc, hn]; rfl)
  rw [hn] at ht hs'
  exact ⟨s, t, es, s', by rw [next, hs]; rfl, ht, hs', ha⟩

end MultiPortConvertor.Uart.Acknowledge
