import MultiPortConvertor.Lib.Runs
import MultiPortConvertor.Uart.Handlers

/-! # The state of the two links

`net_detect_tsk` probes the cable and the wifi and writes `net_state[0]` and `net_state[1]`;
`read_wifi_param`, in the task for the USB sticks, writes the second too. Each write is a step. A
link that has failed keeps its `err`: nothing writes 0 to it, as `http_protocol.c` does for the
server. So a link that comes back is reported as failed (`linkStatus_iff`). -/

namespace MultiPortConvertor.Net.LinkStatus

open MultiPortConvertor.Lib.Bytes MultiPortConvertor.Lib.CString MultiPortConvertor.Lib.Runs
open MultiPortConvertor.App.System
open MultiPortConvertor.Uart.Format MultiPortConvertor.Uart.Dispose MultiPortConvertor.Uart.Handlers

/-- The links that `net_detect_tsk` probes. -/
inductive Link where
  | cable
  | wifi
  deriving DecidableEq

/-- The entry of a link in `net_state`. -/
def Link.entry : Link → Fin 4
  | .cable => ⟨0, by decide⟩
  | .wifi => ⟨1, by decide⟩

/-- The entry of the server. -/
def server : Fin 4 := ⟨3, by decide⟩

/-- What a probe says about a link. -/
inductive Found where
  | up
  | down
  | unreadable
  deriving DecidableEq

/-- The tests on the output of `devmem 0x10110080`, of which `buf` holds 20 bytes. -/
def devmem (out : List UInt8) : Found :=
  let buf := out.take 20
  if buf.getD 3 0 = 0x33 then .up
  else if buf.getD 3 0 = 0x31 then .down
  else .unreadable

/-- The tests on the output of `ap_client`. -/
def apClient (out : List UInt8) : Found :=
  let buf := (out.take 20).takeWhile (· ≠ 0)
  if strcmp buf (ascii "ok") ≠ .lt then .up
  else if strcmp buf (ascii "no") ≠ .lt then .down
  else .unreadable

def Link.probe : Link → List UInt8 → Found
  | .cable => devmem
  | .wifi => apClient

/-- Where `net_detect_tsk` stands: before a probe, before `check_dhcp_state`, or before the write to
`err` that follows one to `course`. -/
inductive DetectTsk where
  | probe (l : Link)
  | dhcp (l : Link)
  | err (l : Link)
  deriving DecidableEq

/-- The other link comes next. -/
def Link.next : Link → DetectTsk
  | .cable => .probe .wifi
  | .wifi => .probe .cable

/-- Where `read_wifi_param` stands: it is not called, or it is before one of its writes. -/
inductive WifiParam where
  | idle
  | course
  | err
  deriving DecidableEq

/-- `net_state` and the tasks that write it. -/
structure Status where
  netState : Fin 4 → NetState
  detectTsk : DetectTsk
  wifiParam : WifiParam

/-- After `sys_context_init`. -/
def Status.start : Status := ⟨netStateInit, .probe .cable, .idle⟩

/-- The steps: the output of a probe, the result of `check_dhcp_state`, the write to `err` of
`net_detect_tsk`; a call of `read_wifi_param`, with the result of `key_file_open`, and its writes; a
write to the entry of the server; a `CMD_QUE_STA` that is answered. -/
inductive Action where
  | probe (out : List UInt8)
  | dhcp (ret : ℤ)
  | err
  | readWifiParam (ret : ℤ)
  | wifiCourse
  | wifiErr
  | server (err : UInt8)
  | queSta (c : UartCmdFormat) (env : Env)

def Status.setCourse (s : Status) (i : Fin 4) (course : UInt8) : Status :=
  { s with netState := Function.update s.netState i { s.netState i with course := course } }

def Status.setErr (s : Status) (i : Fin 4) (err : UInt8) : Status :=
  { s with netState := Function.update s.netState i { s.netState i with err := err } }

/-- One step, and the notifications it sends. -/
def Status.step (s : Status) : Action → Option (Status × List UartSendInfo)
  | .probe out =>
    match s.detectTsk with
    | .probe l =>
      match l.probe out with
      | .up => some ({ s.setCourse l.entry 1 with detectTsk := .dhcp l }, [])
      | .down => some ({ s.setCourse l.entry 0 with detectTsk := .err l }, [])
      | .unreadable => some ({ s with detectTsk := l.next }, [])
    | _ => none
  | .dhcp ret =>
    match s.detectTsk with
    | .dhcp l =>
      if ret ≠ 0 then some (s, [])
      else some ({ s.setCourse l.entry 2 with detectTsk := l.next }, [])
    | _ => none
  | .err =>
    match s.detectTsk with
    | .err l => some ({ s.setErr l.entry 1 with detectTsk := l.next }, [])
    | _ => none
  | .readWifiParam ret =>
    match s.wifiParam with
    | .idle =>
      if ret = -1 then some ({ s with wifiParam := .course }, [errStaNtf 1 0 2]) else some (s, [])
    | _ => none
  | .wifiCourse =>
    match s.wifiParam with
    | .course => some ({ s.setCourse Link.wifi.entry 0 with wifiParam := .err }, [])
    | _ => none
  | .wifiErr =>
    match s.wifiParam with
    | .err => some ({ s.setErr Link.wifi.entry 2 with wifiParam := .idle }, [])
    | _ => none
  | .server err => some (s.setErr server err, [])
  | .queSta _ _ => some (s, [])

/-- The next state, for runs. -/
def next (s : Status) (a : Action) : Option Status := (s.step a).map Prod.fst

/-! ### What is reported -/

/-- The states in an answer to `CMD_QUE_STA`. -/
def states : List UInt8 → List NetState
  | state :: course :: err :: bs => ⟨state, course, err⟩ :: states bs
  | _ => []

/-- The states that `que_sta_rsp` reports. -/
def Status.report (s : Status) (c : UartCmdFormat) (env : Env) : List NetState :=
  let env := { env with netState := s.netState }
  states (queStaRsp c env (.start env)).replied

/-- An address, and an error. -/
def Contradicts (n : NetState) : Prop := n.course = 2 ∧ n.err ≠ 0

/-- No link has an address and an error. -/
def Consistent (s : Status) : Prop := ∀ l : Link, ¬ Contradicts (s.netState l.entry)

/-- A report of the links says of none that it is connected and has failed; the frames that are
answered have such a length. -/
def Truthful (s : Status) : Action → Prop
  | .queSta c env => 4 ≤ c.len → c.len ≤ 128 →
      ∀ n ∈ s.report c env, n.state.toNat < 2 → ¬ Contradicts n
  | _ => True

/-- **The condition**: a link gets an address only while it has never failed, and wifi gets none
between the two writes of `read_wifi_param`. -/
def Unfailed (s : Status) : Action → Prop
  | .dhcp ret => ∀ l, s.detectTsk = .dhcp l → ret = 0 → (s.netState l.entry).err = 0
  | .wifiErr => s.wifiParam = .err → (s.netState Link.wifi.entry).course ≠ 2
  | _ => True

instance (s : Status) (a : Action) : Decidable (Unfailed s a) :=
  match a with
  | .dhcp ret =>
    match h : s.detectTsk with
    | .dhcp l => decidable_of_iff (ret = 0 → (s.netState l.entry).err = 0) (by simp [Unfailed, h])
    | .probe _ | .err _ => isTrue (fun l hl => by rw [h] at hl; cases hl)
  | .wifiErr =>
    inferInstanceAs (Decidable (s.wifiParam = .err → (s.netState Link.wifi.entry).course ≠ 2))
  | .probe _ | .err | .readWifiParam _ | .wifiCourse | .server _ | .queSta _ _ => isTrue trivial

section

variable {s t : Status} {a : Action} {es : List UartSendInfo} {i j : Fin 4} {v : UInt8} {l : Link}

theorem entry_ne_server (l : Link) : l.entry ≠ server := by
  cases l <;> decide

theorem setCourse_self : (s.setCourse i v).netState i = { s.netState i with course := v } :=
  Function.update_self _ _ _

theorem setCourse_of_ne (h : j ≠ i) : (s.setCourse i v).netState j = s.netState j :=
  Function.update_of_ne h _ _

theorem setErr_self : (s.setErr i v).netState i = { s.netState i with err := v } :=
  Function.update_self _ _ _

theorem setErr_of_ne (h : j ≠ i) : (s.setErr i v).netState j = s.netState j :=
  Function.update_of_ne h _ _

/-- A write to `course` leaves what does not depend on the `course` of its entry as it is. -/
theorem setCourse_congr {β : Type} (i : Fin 4) (v : UInt8) (f : NetState → β)
    (hf : f { s.netState i with course := v } = f (s.netState i)) :
    f ((s.setCourse i v).netState j) = f (s.netState j) := by
  by_cases h : j = i
  · subst h
    rw [setCourse_self, hf]
  · rw [setCourse_of_ne h]

theorem setErr_congr {β : Type} (i : Fin 4) (v : UInt8) (f : NetState → β)
    (hf : f { s.netState i with err := v } = f (s.netState i)) :
    f ((s.setErr i v).netState j) = f (s.netState j) := by
  by_cases h : j = i
  · subst h
    rw [setErr_self, hf]
  · rw [setErr_of_ne h]

/-! ### The steps -/

/-- **What a step can do** to `net_state` and the task that probes. -/
inductive Change (s : Status) : Action → Status → Prop where
  | still (a : Action) (d : DetectTsk) (w : WifiParam)
      (hd : ∀ l, d = .err l → s.detectTsk = .err l) :
      Change s a { s with detectTsk := d, wifiParam := w }
  | up (out : List UInt8) (l : Link) (d : DetectTsk) (hd : ∀ l, d ≠ .err l) :
      Change s (.probe out) { s.setCourse l.entry 1 with detectTsk := d }
  | down (out : List UInt8) (l : Link) :
      Change s (.probe out) { s.setCourse l.entry 0 with detectTsk := .err l }
  | address (l : Link) (hs : s.detectTsk = .dhcp l) :
      Change s (.dhcp 0) { s.setCourse l.entry 2 with detectTsk := l.next }
  | err (l : Link) (hs : s.detectTsk = .err l) :
      Change s .err { s.setErr l.entry 1 with detectTsk := l.next }
  | wifiCourse : Change s .wifiCourse { s.setCourse Link.wifi.entry 0 with wifiParam := .err }
  | wifiErr (hs : s.wifiParam = .err) :
      Change s .wifiErr { s.setErr Link.wifi.entry 2 with wifiParam := .idle }
  | server (v : UInt8) : Change s (.server v) (s.setErr server v)

theorem next_ne_err (l l' : Link) : l.next ≠ .err l' := by
  cases l <;> exact fun h => by cases h

/-- **A step that is taken** does one of these. -/
theorem next_change (h : next s a = some t) : Change s a t := by
  obtain ⟨⟨u, es⟩, hs, rfl⟩ := Option.map_eq_some_iff.mp h
  cases a with
  | probe out =>
    simp only [Status.step] at hs
    split at hs
    · split at hs
      · cases hs
        exact .up out _ _ fun _ h => by cases h
      · cases hs
        exact .down out _
      · cases hs
        exact .still _ _ s.wifiParam fun l' h => absurd h (next_ne_err _ l')
    · cases hs
  | dhcp ret =>
    simp only [Status.step] at hs
    split at hs
    · split_ifs at hs with hret
      · cases hs
        exact .still _ s.detectTsk s.wifiParam fun _ => id
      · cases hs
        obtain rfl : ret = 0 := not_not.mp hret
        exact .address _ ‹_›
    · cases hs
  | err =>
    simp only [Status.step] at hs
    split at hs
    · cases hs
      exact .err _ ‹_›
    · cases hs
  | readWifiParam ret =>
    simp only [Status.step] at hs
    split at hs
    · split_ifs at hs
      · cases hs
        exact .still _ s.detectTsk _ fun _ => id
      · cases hs
        exact .still _ s.detectTsk s.wifiParam fun _ => id
    · cases hs
  | wifiCourse =>
    simp only [Status.step] at hs
    split at hs
    · cases hs
      exact .wifiCourse
    · cases hs
  | wifiErr =>
    simp only [Status.step] at hs
    split at hs
    · cases hs
      exact .wifiErr ‹_›
    · cases hs
  | server v =>
    cases hs
    exact .server v
  | queSta c env =>
    cases hs
    exact .still _ s.detectTsk s.wifiParam fun _ => id

/-! ### The invariant -/

/-- Consistent entries under their own numbers; where `net_detect_tsk` is about to write an error,
it has cleared `course`. -/
structure Kept (s : Status) : Prop where
  consistent : Consistent s
  state : ∀ i, (s.netState i).state.toNat = i
  down : ∀ l, s.detectTsk = .err l → (s.netState l.entry).course = 0

theorem consistent_setCourse (h : Consistent s) (hv : v = 2 → (s.netState l.entry).err = 0) :
    Consistent (s.setCourse l.entry v) := by
  intro l' hc
  by_cases hl : l'.entry = l.entry
  · rw [hl, setCourse_self] at hc
    exact hc.2 (hv hc.1)
  · rw [setCourse_of_ne hl] at hc
    exact h l' hc

theorem consistent_setErr (h : Consistent s) (hv : (s.netState l.entry).course ≠ 2) :
    Consistent (s.setErr l.entry v) := by
  intro l' hc
  by_cases hl : l'.entry = l.entry
  · rw [hl, setErr_self] at hc
    exact hv hc.1
  · rw [setErr_of_ne hl] at hc
    exact h l' hc

/-- Where the probing task is about to write an error, clearing `course` does no harm. -/
theorem course_setCourse (h : (s.netState j).course = 0) :
    ((s.setCourse i 0).netState j).course = 0 := by
  by_cases hj : j = i
  · subst hj
    rw [setCourse_self]
  · rw [setCourse_of_ne hj, h]

theorem course_setErr : ((s.setErr i v).netState j).course = (s.netState j).course :=
  setErr_congr i v NetState.course rfl

theorem Kept.state_setCourse (h : Kept s) (i : Fin 4) (v : UInt8) (j : Fin 4) :
    ((s.setCourse i v).netState j).state.toNat = j :=
  (setCourse_congr i v (fun n => n.state.toNat) rfl).trans (h.state j)

theorem Kept.state_setErr (h : Kept s) (i : Fin 4) (v : UInt8) (j : Fin 4) :
    ((s.setErr i v).netState j).state.toNat = j :=
  (setErr_congr i v (fun n => n.state.toNat) rfl).trans (h.state j)

/-- **The invariant is kept** by a step that meets the condition. -/
theorem Kept.change (h : Kept s) (hg : Unfailed s a) (hc : Change s a t) : Kept t := by
  cases hc with
  | still _ d w hd => exact ⟨h.consistent, h.state, fun l hl => h.down l (hd l hl)⟩
  | up out l d hd =>
    exact ⟨consistent_setCourse h.consistent fun h2 => absurd h2 (by decide), h.state_setCourse _ _,
      fun l' hl => absurd hl (hd l')⟩
  | down out l =>
    refine ⟨consistent_setCourse h.consistent fun h2 => absurd h2 (by decide),
      h.state_setCourse _ _,
      fun l' hl => ?_⟩
    obtain rfl : l = l' := DetectTsk.err.inj hl
    exact congrArg NetState.course setCourse_self
  | address l hs =>
    exact ⟨consistent_setCourse h.consistent fun _ => hg l hs rfl, h.state_setCourse _ _,
      fun l' hl => absurd hl (next_ne_err l l')⟩
  | err l hs =>
    have hcourse : (s.netState l.entry).course ≠ 2 := by
      rw [h.down l hs]
      decide
    exact ⟨consistent_setErr h.consistent hcourse, h.state_setErr _ _,
      fun l' hl => absurd hl (next_ne_err l l')⟩
  | wifiCourse =>
    exact ⟨consistent_setCourse h.consistent fun h2 => absurd h2 (by decide), h.state_setCourse _ _,
      fun l' hl => course_setCourse (h.down l' hl)⟩
  | wifiErr hs =>
    exact ⟨consistent_setErr h.consistent (hg hs), h.state_setErr _ _,
      fun l' hl => course_setErr.trans (h.down l' hl)⟩
  | server v =>
    refine ⟨fun l hl => h.consistent l ?_, h.state_setErr _ _,
      fun l' hl => course_setErr.trans (h.down l' hl)⟩
    rwa [setErr_of_ne (entry_ne_server l)] at hl

theorem kept_start : Kept .start where
  consistent := by
    rintro l ⟨hc, -⟩
    cases l <;> cases hc
  state := by decide
  down := fun l hl => by cases hl

/-- A step that violates the condition makes the states inconsistent. -/
theorem inconsistent_of_failed (hg : ¬ Unfailed s a) : ∃ t, next s a = some t ∧ ¬ Consistent t := by
  cases a with
  | dhcp ret =>
    simp only [Unfailed, not_forall] at hg
    obtain ⟨l, hs, rfl, herr⟩ := hg
    refine ⟨{ s.setCourse l.entry 2 with detectTsk := l.next }, by simp [next, Status.step, hs],
      fun h => h l ?_⟩
    show Contradicts ((s.setCourse l.entry 2).netState l.entry)
    rw [setCourse_self]
    exact ⟨rfl, herr⟩
  | wifiErr =>
    simp only [Unfailed, not_forall, not_not] at hg
    obtain ⟨hs, hcourse⟩ := hg
    refine ⟨{ s.setErr Link.wifi.entry 2 with wifiParam := .idle }, by simp [next, Status.step, hs],
      fun h => h .wifi ?_⟩
    show Contradicts ((s.setErr Link.wifi.entry 2).netState Link.wifi.entry)
    rw [setErr_self]
    exact ⟨hcourse, (by decide : (2 : UInt8) ≠ 0)⟩
  | probe | err | readWifiParam | wifiCourse | server | queSta => exact absurd trivial hg

/-! ### The reports -/

/-- The states that the selectors select. -/
def selected (netState : Fin 4 → NetState) (bs : List UInt8) : List NetState :=
  bs.filterMap fun b => if h : b.toNat < 4 then some (netState ⟨b.toNat, h⟩) else none

theorem states_flatMap (env : Env) (bs : List UInt8) :
    states (bs.flatMap (staBytes env)) = selected env.netState bs := by
  induction bs with
  | nil => rfl
  | cons b bs ih =>
    rw [List.flatMap_cons, selected, List.filterMap_cons, staBytes]
    split_ifs with hb
    · exact congrArg (env.netState ⟨b.toNat, hb⟩ :: ·) ih
    · exact ih

/-- **A report** is made of the entries selected. -/
theorem report_eq (s : Status) {c : UartCmdFormat} (env : Env) (h4 : 4 ≤ c.len) (hL : c.len ≤ 128) :
    s.report c env = selected s.netState (payload c) := by
  unfold Status.report
  dsimp only
  rw [queStaRsp_eq c { env with netState := s.netState } h4 hL, replied_packed, states_flatMap]

theorem Kept.truthful (h : Kept s) (a : Action) : Truthful s a := by
  cases a with
  | queSta c env =>
    intro h4 hL n hn hstate
    rw [report_eq s env h4 hL] at hn
    obtain ⟨b, -, hb⟩ := List.mem_filterMap.mp hn
    split_ifs at hb with hlt
    obtain rfl := Option.some.inj hb
    rw [h.state] at hstate
    have hlink : ∃ l : Link, (⟨b.toNat, hlt⟩ : Fin 4) = l.entry := by
      rcases Nat.lt_or_ge b.toNat 1 with h1 | h1
      · exact ⟨.cable, Fin.ext (by
          show b.toNat = 0
          omega)⟩
      · exact ⟨.wifi, Fin.ext (by
          show b.toNat = 1
          have h2 : b.toNat < 2 := hstate
          omega)⟩
    obtain ⟨l, hl⟩ := hlink
    rw [hl]
    exact h.consistent l
  | probe | dhcp | err | readWifiParam | wifiCourse | wifiErr | server => trivial

end

/-! ### Runs -/

/-- **A failure is never forgotten**: once `err` of a link is not 0, it stays so. -/
theorem err_stays {s : Status} {l : Link} (h : (s.netState l.entry).err ≠ 0) (as : List Action) :
    States next (fun t => (t.netState l.entry).err ≠ 0) s as := by
  refine states_of_inv (fun s a t hs hn => ?_) h
  have hset : ∀ i v, ((s.setCourse i v).netState l.entry).err = (s.netState l.entry).err :=
    fun i v => setCourse_congr i v NetState.err rfl
  have herr : ∀ l' v, v ≠ 0 → ((s.setErr (Link.entry l') v).netState l.entry).err ≠ 0 := by
    intro l' v hv
    by_cases hi : l.entry = l'.entry
    · rw [hi, setErr_self]
      exact hv
    · rw [setErr_of_ne hi]
      exact hs
  cases next_change hn with
  | still => exact hs
  | up | down | address | wifiCourse => exact (hset _ _).trans_ne hs
  | err => exact herr _ _ (by decide)
  | wifiErr => exact herr _ _ (by decide)
  | server v =>
    rw [setErr_of_ne (entry_ne_server l)]
    exact hs

/-- **When the states agree**: in every state reached no link has an address and an error, and no
report says so, exactly if a link gets an address only while it has never failed, and wifi gets none
between the two writes of `read_wifi_param`. -/
theorem linkStatus_iff (as : List Action) :
    States next Consistent .start as ∧ Steps next Truthful .start as ↔
    Steps next Unfailed .start as :=
  (steps_iff (fun _ _ _ hs hg hn => hs.change hg (next_change hn)) (fun _ a hs _ => hs.truthful a)
    (fun _ hs => hs.consistent) (fun _ _ _ hg _ => inconsistent_of_failed hg) kept_start).symm

/-- The cable is pulled and put back, and the address is there. -/
def cableBack : List Action := [.probe (ascii "0x01"), .err, .probe [],
    .probe (ascii "0x03"), .dhcp 0]

/-- A frame that asks for the cable, and what is read besides `net_state`. -/
def askCable : UartCmdFormat := store (filled 0) 2 5

def envStart : Env := ⟨systemInfoInit, netStateInit, 0, false, 0⟩

/-- The link is there, and is reported as disconnected. -/
theorem cableBack_reported :
    (exec next .start cableBack).map (fun s => s.report askCable envStart) = some [⟨0, 2, 1⟩] ∧
    ¬ (States next Consistent .start cableBack ∧ Steps next Truthful .start cableBack) := by
  have hreport : (exec next .start cableBack).map (fun s => s.report askCable envStart) =
      some [⟨0, 2, 1⟩] := by decide +kernel
  have hentry : (exec next .start cableBack).map (fun s => s.netState Link.cable.entry) =
      some ⟨0, 2, 1⟩ := by decide +kernel
  refine ⟨hreport, fun h => ?_⟩
  obtain ⟨s, hs, hcable⟩ := Option.map_eq_some_iff.mp hentry
  refine h.1.last hs .cable ?_
  rw [hcable]
  exact ⟨rfl, by decide⟩

end MultiPortConvertor.Net.LinkStatus
