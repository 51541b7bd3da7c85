import MultiPortConvertor.Lib.Outcomes
import MultiPortConvertor.Lib.Runs
import MultiPortConvertor.Usb.WifiParam

/-! # The scans for devices

`udisk_tsk` mounts the first of the three possible sticks that it can, announces it, has its wifi
parameters read, and waits until it is gone. What it does in a run is a series of such sessions, one
stick at a time (`log_sessions`), and a stick that cannot be mounted never hides another
(`scan_finds`). `open_hid` makes the same scan for card readers and scanners, but writes each name
behind the one before, so that there the first device hides the others (`openHid_iff`). -/

namespace MultiPortConvertor.Usb.Devices

open MultiPortConvertor.Lib.CString MultiPortConvertor.Lib.Outcomes MultiPortConvertor.Lib.Runs
open MultiPortConvertor.Uart.Dispose MultiPortConvertor.Usb.WifiParam

/-- `struct UDISK`, without the port and the capacities. -/
structure Udisk where
  state : UInt32
  dir : List UInt8

/-- Where `udisk_tsk` stands: in `sleep`, before the `do_check` of the scan, before the mount point
is looked at, before `hid_insert_ntf`, before `read_wifi_param`, in the loop that waits, before
`do_umount`, or before `hid_pullout_ntf`. -/
inductive UdiskTsk where
  | sleeping
  | scanning (i : Fin 3)
  | mounting (i : Fin 3)
  | inserted (i udisk : Fin 3)
  | reading (i udisk : Fin 3)
  | waiting (i : Fin 3)
  | gone (i : Fin 3)
  | pulledOut
  deriving DecidableEq

/-- `g_udisk`, the names that `access` finds, and the task. -/
structure Udisks where
  gUdisk : Fin 3 → Udisk
  files : List UInt8 → Bool
  tsk : UdiskTsk

/-- What the task does. -/
inductive Event where
  | insertNtf (info : UartSendInfo)
  | param (e : Effect)
  | pulloutNtf (info : UartSendInfo)

/-- The steps. `system` is what others do to the file system; the results of `mkdir` and of `mount`,
and the key file on the stick, are given with the step that asks for them. -/
inductive Action where
  | system (files : List UInt8 → Bool)
  | awake
  | check
  | mount (mkdirRet mountRet : Int32)
  | insertNtf
  | readWifiParam (va : List UInt8 → List UInt8) (conf : List UInt8 → Option KeyFile)
  | umount
  | pulloutNtf

/-- `possible_udisk[i]`. -/
def possible (i : Fin 3) : List UInt8 := possibleUdisk.get i

/-- `do_check`, true for the result 0. -/
def doCheck (relativeFileName : List UInt8) (files : List UInt8 → Bool) : Bool :=
  files (ascii "/dev/" ++ relativeFileName)

/-- The entry of `g_udisk` that `strstr` finds; without one the pointer is bad. -/
def udiskOf (mountPoint : List UInt8) : Outcome (Fin 3) :=
  if ascii "sda1" <:+: mountPoint then .next 0
  else if ascii "sdb1" <:+: mountPoint then .next 1
  else if ascii "sdc1" <:+: mountPoint then .next 2
  else .fault

/-- `do_mount`, where `mount` returns `ret`. -/
def doMount (relativeFileName : List UInt8) (ret : Int32) (gUdisk : Fin 3 → Udisk) :
    Outcome (Option (Fin 3) × (Fin 3 → Udisk)) :=
  if ret = 0 then do
    let udisk ← udiskOf (mountPoint relativeFileName)
    return (some udisk, Function.update gUdisk udisk ⟨0, mountPoint relativeFileName⟩)
  else return (none, gUdisk)

/-- `do_umount`. -/
def doUmount (relativeFileName : List UInt8) (gUdisk : Fin 3 → Udisk) :
    Outcome (Fin 3 → Udisk) := do
  let udisk ← udiskOf (mountPoint relativeFileName)
  return Function.update gUdisk udisk { gUdisk udisk with state := 1 }

/-- The directory is made if it is not there; `mkdir` returns `ret`. -/
def makeDir (mountFileName : List UInt8) (ret : Int32) (files : List UInt8 → Bool) :
    List UInt8 → Bool :=
  if files mountFileName = false ∧ ret = 0 then Function.update files mountFileName true else files

/-- The next turn of the scan. -/
def turn (i : Fin 3) : UdiskTsk :=
  if h : i.val + 1 < 3 then .scanning ⟨i.val + 1, h⟩ else .sleeping

/-- One step. A step that the task cannot take now is `blocked`. -/
def Udisks.step (s : Udisks) : Action → Outcome (Udisks × List Event)
  | .system files => .next ({ s with files := files }, [])
  | .awake =>
    match s.tsk with
    | .sleeping => .next ({ s with tsk := .scanning 0 }, [])
    | _ => .blocked
  | .check =>
    match s.tsk with
    | .scanning i =>
      if doCheck (possible i) s.files then .next ({ s with tsk := .mounting i }, [])
      else .next ({ s with tsk := turn i }, [])
    | .waiting i =>
      if doCheck (possible i) s.files then .next (s, []) else .next ({ s with tsk := .gone i }, [])
    | _ => .blocked
  | .mount mkdirRet mountRet =>
    match s.tsk with
    | .mounting i => do
      let made := makeDir (mountPoint (possible i)) mkdirRet s.files
      let (udisk, g) ← doMount (possible i) mountRet s.gUdisk
      match udisk with
      | some udisk => return ({ gUdisk := g, files := made, tsk := .inserted i udisk }, [])
      | none => return ({ gUdisk := g, files := made, tsk := turn i }, [])
    | _ => .blocked
  | .insertNtf =>
    match s.tsk with
    | .inserted i udisk => .next ({ s with tsk := .reading i udisk }, [.insertNtf (hidInsertNtf 5)])
    | _ => .blocked
  | .readWifiParam va conf =>
    match s.tsk with
    | .reading i udisk =>
      .next ({ s with tsk := .waiting i }, (readWifiParam va conf (s.gUdisk udisk).dir).map .param)
    | _ => .blocked
  | .umount =>
    match s.tsk with
    | .gone i => do
      let g ← doUmount (possible i) s.gUdisk
      return ({ s with gUdisk := g, tsk := .pulledOut }, [])
    | _ => .blocked
  | .pulloutNtf =>
    match s.tsk with
    | .pulledOut => .next ({ s with tsk := .sleeping }, [.pulloutNtf (hidPulloutNtf 5)])
    | _ => .blocked

/-- The state after `udisk_context_init`; `dirs` is what the directories of `g_udisk` hold. -/
def udiskContextInit (dirs : Fin 3 → List UInt8) (files : List UInt8 → Bool) : Udisks where
  gUdisk i := ⟨1, dirs i⟩
  files := files
  tsk := .sleeping

/-- A step together with the record of what was done. -/
def watch (w : Udisks × List Event) (a : Action) : Outcome (Udisks × List Event) := do
  let (s, es) ← w.1.step a
  return (s, w.2 ++ es)

/-! ### The sessions -/

/-- The stick that is mounted. -/
def UdiskTsk.mounted : UdiskTsk → Option (Fin 3)
  | .inserted i _ | .reading i _ | .waiting i | .gone i => some i
  | _ => none

/-- A stick, and what its wifi parameters are read with. -/
structure Session where
  i : Fin 3
  va : List UInt8 → List UInt8
  conf : List UInt8 → Option KeyFile

/-- What is done for a stick until it is gone. -/
def Session.begun (x : Session) : List Event :=
  .insertNtf (hidInsertNtf 5) :: (readWifiParam x.va x.conf (mountPoint (possible x.i))).map .param

/-- What is done for a stick. -/
def Session.events (x : Session) : List Event := x.begun ++ [.pulloutNtf (hidPulloutNtf 5)]

/-- The part of a session that has been done where the task stands. -/
def Begun : UdiskTsk → List Event → Prop
  | .inserted i udisk, es => udisk = i ∧ es = []
  | .reading i udisk, es => udisk = i ∧ es = [.insertNtf (hidInsertNtf 5)]
  | .waiting i, es | .gone i, es => ∃ x : Session, x.i = i ∧ es = x.begun
  | .pulledOut, es => ∃ x : Session, es = x.begun
  | .sleeping, es | .scanning _, es | .mounting _, es => es = []

/-- What holds of the task and of the record of what was done: sessions that are over, one after the
other, and the part of one that goes on; of the entries of `g_udisk` the one of the mounted stick is
in use. -/
structure Told (s : Udisks) (log : List Event) : Prop where
  sessions : ∃ (xs : List Session) (es : List Event),
    log = xs.flatMap Session.events ++ es ∧ Begun s.tsk es
  state : ∀ j, (s.gUdisk j).state = if s.tsk.mounted = some j then 0 else 1
  dir : ∀ j, s.tsk.mounted = some j → (s.gUdisk j).dir = mountPoint (possible j)

variable {s s' : Udisks} {log es : List Event} {a : Action} {i : Fin 3}

/-- The names are told apart by `strstr`. -/
theorem udiskOf_mountPoint (i : Fin 3) : udiskOf (mountPoint (possible i)) = .next i := by
  revert i
  decide +kernel

theorem doMount_eq (i : Fin 3) (ret : Int32) (g : Fin 3 → Udisk) : doMount (possible i) ret g =
    if ret = 0 then .next (some i, Function.update g i ⟨0, mountPoint (possible i)⟩)
    else .next (none, g) := by
  unfold doMount
  rw [udiskOf_mountPoint]
  rfl

theorem doUmount_eq (i : Fin 3) (g : Fin 3 → Udisk) :
    doUmount (possible i) g = .next (Function.update g i { g i with state := 1 }) := by
  unfold doUmount
  rw [udiskOf_mountPoint]
  rfl

theorem mounted_turn (i : Fin 3) : (turn i).mounted = none := by
  unfold turn
  split_ifs <;> rfl

theorem begun_turn (i : Fin 3) : Begun (turn i) [] := by
  unfold turn
  split_ifs <;> rfl

/-- Where nothing is mounted every entry is out of use. -/
theorem Told.state_one (h : Told s log) (hs : s.tsk.mounted = none) (j : Fin 3) :
    (s.gUdisk j).state = 1 := by
  rw [h.state, hs, if_neg (by simp)]

/-- Nothing is done, nothing is mounted or released. -/
theorem Told.keep (h : Told s log) {tsk : UdiskTsk} (files : List UInt8 → Bool)
    (hb : ∀ es, Begun s.tsk es → Begun tsk es) (hm : tsk.mounted = s.tsk.mounted) :
    Told { s with files := files, tsk := tsk } (log ++ []) where
  sessions := by
    obtain ⟨xs, es, hlog, hes⟩ := h.sessions
    exact ⟨xs, es, by rw [List.append_nil, hlog], hb es hes⟩
  state j := by
    show (s.gUdisk j).state = if tsk.mounted = some j then 0 else 1
    rw [hm]
    exact h.state j
  dir j hj := h.dir j (hm ▸ hj)

/-- A part of a session is done, without a mount. -/
theorem Told.begin (h : Told s log) {tsk : UdiskTsk} {es' : List Event}
    (hb : ∀ es, Begun s.tsk es → Begun tsk (es ++ es')) (hm : tsk.mounted = s.tsk.mounted) :
    Told { s with tsk := tsk } (log ++ es') where
  sessions := by
    obtain ⟨xs, es, hlog, hes⟩ := h.sessions
    exact ⟨xs, es ++ es', by rw [hlog, List.append_assoc], hb es hes⟩
  state j := by
    show (s.gUdisk j).state = if tsk.mounted = some j then 0 else 1
    rw [hm]
    exact h.state j
  dir j hj := h.dir j (hm ▸ hj)

theorem Told.mount (h : Told s log) (hs : s.tsk = .mounting i) (mkdirRet mountRet : Int32)
    (he : s.step (.mount mkdirRet mountRet) = .next (s', es)) : Told s' (log ++ es) := by
  have hone := h.state_one (by rw [hs]; rfl)
  obtain ⟨xs, es', hlog, hes⟩ := h.sessions
  obtain rfl : es' = [] := by
    rw [hs] at hes
    exact hes
  simp only [Udisks.step, hs, doMount_eq] at he
  split_ifs at he with hret
  all_goals
    simp only [Outcome.next_bind, Outcome.pure_eq, Outcome.next.injEq, Prod.mk.injEq] at he
    obtain ⟨rfl, rfl⟩ := he
    rw [List.append_nil]
  · refine ⟨⟨xs, [], hlog, rfl, rfl⟩, fun j => ?_, fun j hj => ?_⟩
    · show (Function.update s.gUdisk i ⟨0, mountPoint (possible i)⟩ j).state = if some i =
        some j then 0 else 1
      by_cases hj : j = i
      · rw [hj, Function.update_self, if_pos rfl]
      · rw [Function.update_of_ne hj, hone, if_neg fun h => hj (Option.some.inj h).symm]
    · obtain rfl : i = j := Option.some.inj hj
      show (Function.update s.gUdisk i ⟨0, mountPoint (possible i)⟩ i).dir = _
      rw [Function.update_self]
  · refine ⟨⟨xs, [], hlog, begun_turn i⟩, fun j => ?_, fun j hj => ?_⟩
    · rw [mounted_turn, if_neg (by simp)]
      exact hone j
    · exact absurd ((mounted_turn i).symm.trans hj) (by simp)

theorem Told.umount (h : Told s log) (hs : s.tsk = .gone i) (he : s.step .umount = .next (s', es)) :
    Told s' (log ++ es) := by
  simp only [Udisks.step, hs, doUmount_eq, Outcome.next_bind, Outcome.pure_eq, Outcome.next.injEq,
    Prod.mk.injEq] at he
  obtain ⟨rfl, rfl⟩ := he
  obtain ⟨xs, es', hlog, hes⟩ := h.sessions
  rw [hs] at hes
  obtain ⟨x, -, rfl⟩ := hes
  refine ⟨⟨xs, x.begun, by rw [List.append_nil, hlog], x, rfl⟩, fun j => ?_, fun j hj => ?_⟩
  · show (Function.update s.gUdisk i { s.gUdisk i with state := 1 } j).state = 1
    by_cases hj : j = i
    · rw [hj, Function.update_self]
    · rw [Function.update_of_ne hj, h.state, hs,
        if_neg (by simpa [UdiskTsk.mounted] using Ne.symm hj)]
  · exact absurd hj (by simp [UdiskTsk.mounted])

/-- **One step** keeps the record a series of sessions. -/
theorem Told.step (h : Told s log) (he : s.step a = .next (s', es)) : Told s' (log ++ es) := by
  rcases a with files | _ | _ | ⟨mkdirRet, mountRet⟩ | _ | ⟨va, conf⟩ | _ | _
  · obtain ⟨rfl, rfl⟩ : { s with files := files } = s' ∧ [] = es := by simpa [Udisks.step] using he
    exact @Told.keep s log h s.tsk files (fun _ => id) rfl
  · rcases hs : s.tsk with _ | i | i | ⟨i, u⟩ | ⟨i, u⟩ | i | i | _ <;> simp [Udisks.step, hs] at he
    obtain ⟨rfl, rfl⟩ := he
    exact h.keep s.files (fun es hes => by rw [hs] at hes; exact hes) (by rw [hs]; rfl)
  · rcases hs : s.tsk with _ | i | i | ⟨i, u⟩ | ⟨i, u⟩ | i | i | _ <;> simp only
      [Udisks.step, hs, reduceCtorEq] at he
    · split_ifs at he
      all_goals
        simp only [Outcome.next.injEq, Prod.mk.injEq] at he
        obtain ⟨rfl, rfl⟩ := he
      · exact h.keep s.files (fun es hes => by rw [hs] at hes; exact hes) (by rw [hs]; rfl)
      · refine h.keep s.files (fun es hes => ?_) (by rw [hs, mounted_turn]; rfl)
        rw [hs] at hes
        obtain rfl : es = [] := hes
        exact begun_turn i
    · split_ifs at he
      all_goals
        simp only [Outcome.next.injEq, Prod.mk.injEq] at he
        obtain ⟨rfl, rfl⟩ := he
      · exact h.keep s.files (fun _ => id) rfl
      · exact h.keep s.files (fun es hes => by rw [hs] at hes; exact hes) (by rw [hs]; rfl)
  · rcases hs : s.tsk with _ | i | i | ⟨i, u⟩ | ⟨i, u⟩ | i | i | _
    case mounting => exact h.mount hs mkdirRet mountRet he
    all_goals simp [Udisks.step, hs] at he
  · rcases hs : s.tsk with _ | i | i | ⟨i, u⟩ | ⟨i, u⟩ | i | i | _ <;> simp [Udisks.step, hs] at he
    obtain ⟨rfl, rfl⟩ := he
    refine h.begin (fun es hes => ?_) (by rw [hs]; rfl)
    rw [hs] at hes
    obtain ⟨rfl, rfl⟩ := hes
    exact ⟨rfl, rfl⟩
  · rcases hs : s.tsk with _ | i | i | ⟨i, u⟩ | ⟨i, u⟩ | i | i | _ <;> simp [Udisks.step, hs] at he
    obtain ⟨rfl, rfl⟩ := he
    refine h.begin (fun es hes => ?_) (by rw [hs]; rfl)
    rw [hs] at hes
    obtain ⟨rfl, rfl⟩ := hes
    rw [h.dir u (by rw [hs]; rfl)]
    exact ⟨⟨u, va, conf⟩, rfl, rfl⟩
  · rcases hs : s.tsk with _ | i | i | ⟨i, u⟩ | ⟨i, u⟩ | i | i | _
    case gone => exact h.umount hs he
    all_goals simp [Udisks.step, hs] at he
  · rcases hs : s.tsk with _ | i | i | ⟨i, u⟩ | ⟨i, u⟩ | i | i | _ <;> simp [Udisks.step, hs] at he
    obtain ⟨rfl, rfl⟩ := he
    obtain ⟨xs, es, hlog, hes⟩ := h.sessions
    rw [hs] at hes
    obtain ⟨x, rfl⟩ := hes
    refine ⟨⟨xs ++ [x], [], ?_, rfl⟩, fun j => ?_, fun j hj => ?_⟩
    · rw [hlog, List.flatMap_append, List.flatMap_singleton, List.append_nil, List.append_assoc]
      rfl
    · exact h.state_one (by rw [hs]; rfl) j
    · exact absurd hj (by simp [UdiskTsk.mounted])

theorem step_ne_fault (s : Udisks) (a : Action) : s.step a ≠ .fault := by
  rcases a with files | _ | _ | ⟨mkdirRet, mountRet⟩ | _ | ⟨va, conf⟩ | _ | _
  case mount =>
    rcases hs : s.tsk with _ | i | i | ⟨i, u⟩ | ⟨i, u⟩ | i | i | _ <;> simp [Udisks.step, hs]
    rw [doMount_eq]
    split_ifs <;> simp
  case umount =>
    rcases hs : s.tsk with _ | i | i | ⟨i, u⟩ | ⟨i, u⟩ | i | i | _ <;> simp [Udisks.step, hs]
    rw [doUmount_eq]
    simp
  case check =>
    rcases hs : s.tsk with _ | i | i | ⟨i, u⟩ | ⟨i, u⟩ | i | i | _ <;> simp [Udisks.step, hs]
    all_goals split_ifs <;> simp
  all_goals
    rcases hs : s.tsk with _ | i | i | ⟨i, u⟩ | ⟨i, u⟩ | i | i | _ <;> simp [Udisks.step, hs]

theorem told_start (dirs : Fin 3 → List UInt8) (files : List UInt8 → Bool) :
    Told (udiskContextInit dirs files) [] where
  sessions := ⟨[], [], rfl, rfl⟩
  state _ := rfl
  dir _ h := by simp [udiskContextInit, UdiskTsk.mounted] at h

section

variable (present : Fin 3 → Bool) (ret : Fin 3 → Int32)

/-- The stick is there and can be mounted. -/
def Good (i : Fin 3) : Prop := present i = true ∧ ret i = 0

/-- The sticks stay, and `mount` answers the same again. -/
def Quiet (s : Udisks) : Action → Prop
  | .system files => ∀ i, doCheck (possible i) files = present i
  | .mount _ mountRet => ∀ i, s.tsk = .mounting i → mountRet = ret i
  | _ => True

instance (s : Udisks) : DecidablePred (Quiet present ret s)
  | .system files => inferInstanceAs (Decidable (∀ i, doCheck (possible i) files = present i))
  | .mount _ mountRet => inferInstanceAs (Decidable (∀ i, s.tsk = .mounting i → mountRet = ret i))
  | .awake | .check | .insertNtf | .readWifiParam _ _ | .umount | .pulloutNtf => isTrue trivial

/-- What the scan has found where the task stands. -/
def Found : UdiskTsk → Prop
  | .sleeping => ∀ j, ¬ Good present ret j
  | .scanning i => ∀ j < i, ¬ Good present ret j
  | .mounting i => present i = true ∧ ∀ j < i, ¬ Good present ret j
  | .inserted i _ | .reading i _ | .waiting i => Good present ret i ∧ ∀ j < i, ¬ Good present ret j
  | .gone _ | .pulledOut => False

variable {present ret}

theorem found_turn (hi : ¬ Good present ret i) (h : ∀ j < i, ¬ Good present ret j) :
    Found present ret (turn i) := by
  have hle : ∀ j ≤ i, ¬ Good present ret j := fun j hj => by
    rcases hj.lt_or_eq with hj | rfl
    · exact h j hj
    · exact hi
  unfold turn
  split_ifs with hlast
  · intro j hj
    have hlt : j.val < i.val + 1 := hj
    exact hle j (Fin.le_def.mpr (by omega))
  · intro j
    exact hle j (Fin.le_def.mpr (by omega))

theorem doCheck_makeDir (i j : Fin 3) (r : Int32) (files : List UInt8 → Bool) :
    doCheck (possible i) (makeDir (mountPoint (possible j)) r files) =
    doCheck (possible i) files := by
  have hne : ascii "/dev/" ++ possible i ≠ mountPoint (possible j) := by
    revert i j
    decide +kernel
  unfold doCheck makeDir
  split_ifs
  · exact Function.update_of_ne hne _ _
  · rfl

/-- **One step** while the sticks stay. -/
theorem found_step (hf : ∀ i, doCheck (possible i) s.files = present i)
    (h : Found present ret s.tsk) (hq : Quiet present ret s a) (he : s.step a = .next (s', es)) :
    (∀ i, doCheck (possible i) s'.files = present i) ∧ Found present ret s'.tsk := by
  rcases a with files | _ | _ | ⟨mkdirRet, mountRet⟩ | _ | ⟨va, conf⟩ | _ | _
  · obtain ⟨rfl, rfl⟩ : { s with files := files } = s' ∧ [] = es := by simpa [Udisks.step] using he
    exact ⟨hq, h⟩
  all_goals
    rcases hs : s.tsk with _ | i | i | ⟨i, u⟩ | ⟨i, u⟩ | i | i | _ <;>
      simp only [Udisks.step, hs, reduceCtorEq, Outcome.next.injEq, Prod.mk.injEq] at he
    all_goals rw [hs] at h
  · obtain ⟨rfl, rfl⟩ := he
    exact ⟨hf, fun j hj => absurd hj (by omega)⟩
  · split_ifs at he with hc
    all_goals
      simp only [Outcome.next.injEq, Prod.mk.injEq] at he
      obtain ⟨rfl, rfl⟩ := he
      rw [hf] at hc
    · exact ⟨hf, hc, h⟩
    · exact ⟨hf, found_turn (fun hg => hc hg.1) h⟩
  · rw [hf, if_pos h.1.1] at he
    simp only [Outcome.next.injEq, Prod.mk.injEq] at he
    obtain ⟨rfl, rfl⟩ := he
    exact ⟨hf, hs ▸ h⟩
  · rw [doMount_eq] at he
    have hr : mountRet = ret i := hq i hs
    split_ifs at he with hz
    all_goals
      simp only [Outcome.next_bind, Outcome.pure_eq, Outcome.next.injEq, Prod.mk.injEq] at he
      obtain ⟨rfl, rfl⟩ := he
      refine ⟨fun j => (doCheck_makeDir j i mkdirRet s.files).trans (hf j), ?_⟩
    · exact ⟨⟨h.1, hr ▸ hz⟩, h.2⟩
    · exact found_turn (fun hg => hz (hr.trans hg.2)) h.2
  · obtain ⟨rfl, rfl⟩ := he
    exact ⟨hf, h⟩
  · obtain ⟨rfl, rfl⟩ := he
    exact ⟨hf, h⟩
  · exact absurd h id
  · exact absurd h id

/-- The steps that are left of a scan, at most. -/
def left : UdiskTsk → ℕ
  | .scanning i => 6 - 2 * i.val
  | .mounting i => 5 - 2 * i.val
  | _ => 0

/-- A step of the scan. -/
def Action.scans : Action → Bool
  | .check | .mount _ _ => true
  | _ => false

theorem left_turn (i : Fin 3) : left (turn i) = 4 - 2 * i.val := by
  revert i
  decide

theorem left_step (ha : a ≠ .awake) (he : s.step a = .next (s', es)) :
    left s'.tsk ≤ left s.tsk - if a.scans then 1 else 0 := by
  rcases a with files | _ | _ | ⟨mkdirRet, mountRet⟩ | _ | ⟨va, conf⟩ | _ | _
  · obtain ⟨rfl, rfl⟩ : { s with files := files } = s' ∧ [] = es := by simpa [Udisks.step] using he
    exact le_rfl
  · exact absurd rfl ha
  all_goals
    rcases hs : s.tsk with _ | i | i | ⟨i, u⟩ | ⟨i, u⟩ | i | i | _ <;>
      simp only [Udisks.step, hs, reduceCtorEq, Outcome.next.injEq, Prod.mk.injEq] at he
  · split_ifs at he
    all_goals
      simp only [Outcome.next.injEq, Prod.mk.injEq] at he
      obtain ⟨rfl, rfl⟩ := he
    · show 5 - 2 * i.val ≤ 6 - 2 * i.val - 1
      omega
    · show left (turn i) ≤ 6 - 2 * i.val - 1
      rw [left_turn]
      omega
  · split_ifs at he
    all_goals
      simp only [Outcome.next.injEq, Prod.mk.injEq] at he
      obtain ⟨rfl, rfl⟩ := he
    · rw [hs]
      exact Nat.zero_le _
    · exact Nat.zero_le _
  · rw [doMount_eq] at he
    split_ifs at he
    all_goals
      simp only [Outcome.next_bind, Outcome.pure_eq, Outcome.next.injEq, Prod.mk.injEq] at he
      obtain ⟨rfl, rfl⟩ := he
    · exact Nat.zero_le _
    · show left (turn i) ≤ 5 - 2 * i.val - 1
      rw [left_turn]
      omega
  · obtain ⟨rfl, rfl⟩ := he
    exact le_rfl
  · obtain ⟨rfl, rfl⟩ := he
    exact le_rfl
  · rw [doUmount_eq] at he
    obtain ⟨rfl, rfl⟩ : { s with gUdisk := _, tsk := .pulledOut } = s' ∧ [] = es := by
      simpa using he
    exact le_rfl
  · obtain ⟨rfl, rfl⟩ := he
    exact le_rfl

/-- One step, without what is done. -/
def Udisks.next (s : Udisks) (a : Action) : Option Udisks := (s.step a).toOption.map Prod.fst

theorem next_eq_some : s.next a = some s' ↔ ∃ es, s.step a = .next (s', es) := by
  unfold Udisks.next
  rcases s.step a with ⟨t, es⟩ | _ | _ | _ <;> simp [Outcome.toOption]

theorem left_exec : ∀ {s t : Udisks} {as : List Action}, .awake ∉ as →
    exec Udisks.next s as = some t → left t.tsk ≤ left s.tsk - as.countP Action.scans
  | s, t, [], _, he => by
    obtain rfl := Option.some.inj he
    exact le_rfl
  | s, t, a :: as, ha, he => by
    obtain ⟨u, hu, he⟩ := Option.bind_eq_some_iff.mp he
    obtain ⟨es, hes⟩ := next_eq_some.mp hu
    have hstep := left_step (fun h => ha (h ▸ List.mem_cons_self)) hes
    have hrest := left_exec (fun h => ha (List.mem_cons_of_mem a h)) he
    rw [List.countP_cons]
    omega

/-- **A stick that cannot be mounted never hides another.** While the sticks stay as they are, the
only one that is ever announced is the first that is there and can be mounted; when the task sleeps
there is none; and a scan takes at most six steps. -/
theorem scan_finds {s t : Udisks} {as : List Action} (hs : s.tsk = .scanning 0)
    (hf : ∀ i, doCheck (possible i) s.files = present i)
    (hq : Steps Udisks.next (Quiet present ret) s as) (he : exec Udisks.next s as = some t) :
    Found present ret t.tsk ∧
      (.awake ∉ as → 6 ≤ as.countP Action.scans → ∀ i, t.tsk ≠ .scanning i ∧
        t.tsk ≠ .mounting i) := by
  constructor
  · have hstart : Found present ret s.tsk := by
      rw [hs]
      exact fun j hj => absurd hj (by omega)
    exact ((states_of_guarded (I := fun u => (∀ i, doCheck (possible i) u.files = present i) ∧
      Found present ret u.tsk) (fun u a u' hu hG he => by
        obtain ⟨es, hes⟩ := next_eq_some.mp he
        exact found_step hu.1 hu.2 hG hes) ⟨hf, hstart⟩ hq).last he).2
  · intro ha hn i
    have hleft := left_exec ha he
    rw [hs] at hleft
    have hzero : left t.tsk = 0 := by
      have hsix : left (.scanning 0) = 6 := rfl
      omega
    have hi := i.isLt
    constructor
    · intro h
      rw [h] at hzero
      have : 6 - 2 * i.val = 0 := hzero
      omega
    · intro h
      rw [h] at hzero
      have : 5 - 2 * i.val = 0 := hzero
      omega

end

/-- The first stick cannot be mounted, the second can. -/
def twoSticks : Udisks where
  gUdisk _ := ⟨1, []⟩
  files f := f = ascii "/dev/sda1" || f = ascii "/dev/sdb1"
  tsk := .scanning 0

/-- The theorem applied to a scan of both. -/
theorem scan_finds_second : ∃ t, exec Udisks.next twoSticks [.check, .mount 0 (-1), .check,
    .mount 0 0] = some t ∧
    t.tsk = .inserted 1 1 ∧ Found (fun i => i < 2) (fun i => if i = 0 then -1 else 0) t.tsk := by
  have hs : twoSticks.tsk = .scanning 0 := rfl
  have hf : ∀ i : Fin 3, doCheck (possible i) twoSticks.files = decide (i < 2) := by decide +kernel
  have hq : Steps Udisks.next (Quiet (fun i => i < 2) fun i => if i = 0 then -1 else 0) twoSticks
      [.check, .mount 0 (-1), .check, .mount 0 0] := by
    decide +kernel
  exact ⟨_, rfl, rfl, (scan_finds hs hf hq rfl).1⟩

/-! ### Card readers and scanners -/

/-- `possible_hid`. -/
def possibleHid : List (List UInt8) := [ascii "hidraw0", ascii "hidraw1", ascii "hidraw2"]

section

variable (files : List UInt8 → Bool) (openFile : List UInt8 → Int32)

/-- The loop of `open_hid`: what `absolute_file_name` holds, `fd`, and the names that are left. -/
def openHidLoop (absoluteFileName : List UInt8) (fd : Int32) : List (List UInt8) → Int32
  | [] => fd
  | name :: names =>
    if doCheck name files then
      let absoluteFileName := absoluteFileName ++ name
      let fd := openFile absoluteFileName
      if fd < 0 then openHidLoop absoluteFileName fd names else fd
    else openHidLoop absoluteFileName fd names

/-- `open_hid`. -/
def openHid : Int32 := openHidLoop files openFile (ascii "/dev/") 0 possibleHid

variable {files openFile}

variable {path name pre : List UInt8} {fd : Int32} {names : List (List UInt8)}

theorem openHidLoop_cons : openHidLoop files openFile path fd (name :: names) =
    if doCheck name files then
      if openFile (path ++ name) < 0 then
        openHidLoop files openFile (path ++ name) (openFile (path ++ name)) names
      else openFile (path ++ name)
    else openHidLoop files openFile path fd names := rfl

/-- Where no longer name can be opened nothing is. -/
theorem openHidLoop_not_pos (hopen : ∀ rest, pre <+: rest → openFile (path ++ rest) < 0)
    (hne : ∀ n ∈ names, pre <+: n) (hfd : ¬ 0 < fd) :
    ¬ 0 < openHidLoop files openFile path fd names := by
  induction names generalizing path fd with
  | nil => exact hfd
  | cons name names ih =>
    obtain ⟨hname, hnames⟩ := List.forall_mem_cons.mp hne
    have hlt : openFile (path ++ name) < 0 := hopen name hname
    have hopen' : ∀ rest, pre <+: rest → openFile (path ++ name ++ rest) < 0 := by
      intro rest _
      rw [List.append_assoc]
      exact hopen _ (hname.trans (List.prefix_append name rest))
    rw [openHidLoop_cons, if_pos hlt]
    by_cases hc : doCheck name files = true
    · rw [if_pos hc]
      exact ih hopen' hnames (Int32.lt_asymm hlt)
    · rw [if_neg hc]
      exact ih hopen hnames hfd

/-- The first file that is there decides. -/
theorem openHidLoop_pos_iff (hne : ∀ n ∈ names, pre <+: n)
    (hopen : ∀ n ∈ names, ∀ rest, pre <+: rest → openFile (path ++ n ++ rest) < 0) :
    0 < openHidLoop files openFile path 0 names ↔
      ∃ n, names.find? (doCheck · files) = some n ∧ 0 < openFile (path ++ n) := by
  induction names with
  | nil => simp [openHidLoop]
  | cons name names ih =>
    obtain ⟨-, hnames⟩ := List.forall_mem_cons.mp hne
    obtain ⟨hopenName, hopenNames⟩ := List.forall_mem_cons.mp hopen
    rw [openHidLoop_cons]
    by_cases hc : doCheck name files = true
    · have hfind : (name :: names).find? (doCheck · files) = some name := by simp [hc]
      rw [if_pos hc, hfind]
      simp only [Option.some.injEq, exists_eq_left']
      by_cases hfd : openFile (path ++ name) < 0
      · rw [if_pos hfd]
        exact iff_of_false (openHidLoop_not_pos hopenName hnames (Int32.lt_asymm hfd))
          (Int32.lt_asymm hfd)
      · rw [if_neg hfd]
    · have hfind : (name :: names).find? (doCheck · files) = names.find? (doCheck · files) := by
        simp [hc]
      rw [if_neg hc, hfind]
      exact ih hnames hopenNames

end

/-- **The first device hides the others**: the names are put one behind the other, so when no file
is called by the name of a device with more behind it, a device is opened exactly if the first one
that is there can be. -/
theorem openHid_iff {files : List UInt8 → Bool} {openFile : List UInt8 → Int32}
    (hopen : ∀ n ∈ possibleHid, ∀ rest, openFile (ascii "/dev/" ++ n ++ (ascii "hidraw" ++ rest)) <
      0) :
    0 < openHid files openFile ↔
      ∃ n, possibleHid.find? (doCheck · files) = some n ∧ 0 < openFile (ascii "/dev/" ++ n) := by
  have hnames : ∀ n ∈ possibleHid, ascii "hidraw" <+: n := by decide +kernel
  refine openHidLoop_pos_iff hnames ?_
  rintro n hn rest ⟨rest, rfl⟩
  exact hopen n hn rest

/-- The second of two devices can be opened. -/
def openSecond (path : List UInt8) : Int32 := if path = ascii "/dev/hidraw1" then 3 else -1

/-- The theorem applied to them: the second is not found. -/
theorem openHid_iff_second :
    (0 < openHid (fun f => f = ascii "/dev/hidraw0" || f = ascii "/dev/hidraw1") openSecond ↔
      ∃ n, possibleHid.find? (doCheck ·
        fun f => f = ascii "/dev/hidraw0" || f = ascii "/dev/hidraw1") = some n ∧
      0 < openSecond (ascii "/dev/" ++ n)) ∧
    openHid (fun f => f = ascii "/dev/hidraw0" || f = ascii "/dev/hidraw1") openSecond = -1 := by
  refine ⟨openHid_iff fun n hn rest => ?_, by decide +kernel⟩
  have hne : ascii "/dev/" ++ n ++ (ascii "hidraw" ++ rest) ≠ ascii "/dev/hidraw1" := by
    intro h
    have hlen := congrArg List.length h
    have hseven : ∀ n ∈ possibleHid, n.length = 7 := by decide +kernel
    have hfive : (ascii "/dev/").length = 5 := rfl
    have hsix : (ascii "hidraw").length = 6 := rfl
    have htwelve : (ascii "/dev/hidraw1").length = 12 := rfl
    simp only [List.length_append, hseven n hn] at hlen
    omega
  unfold openSecond
  rw [if_neg hne]
  decide

end MultiPortConvertor.Usb.Devices
