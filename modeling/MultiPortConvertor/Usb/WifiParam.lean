import MultiPortConvertor.Lib.Shell
import MultiPortConvertor.Net.LinkStatus

/-! # The wifi parameters on a USB stick

`read_wifi_param` reads two values of `system.conf` with `key_file_get_string`, copies them into
arrays of 32 bytes, passes them to `sprintf` as formats and puts what comes out between single
quotes in commands for the shell. It sets what the file says exactly when both values have at most
31 bytes, no `%` and no `'` (`configures_iff`). After a write behind the end of an array the model
goes on as if nothing had been overwritten. -/

namespace MultiPortConvertor.Usb.WifiParam

open MultiPortConvertor.Lib.CString MultiPortConvertor.Lib.Shell
open MultiPortConvertor.App.System MultiPortConvertor.Net.LinkStatus
open MultiPortConvertor.Uart.Dispose

/-- The arrays of `read_wifi_param`. -/
inductive Buffer where
  | keyFileName
  | ssid
  | passwd
  | cmd
  deriving DecidableEq

def Buffer.size : Buffer → ℕ
  | .keyFileName | .ssid | .passwd => 32
  | .cmd => 128

/-- What `read_wifi_param` does: a string with its final zero is written to an array at an offset, a
command goes to the shell, a notification is sent, `net_state[1]` is written. -/
inductive Effect where
  | write (b : Buffer) (off : ℕ) (text : List UInt8)
  | system (command : List UInt8)
  | ntf (info : UartSendInfo)
  | course (course : UInt8)
  | err (err : UInt8)

/-- `g_key_file_get_string` on an open file, given the group and the key; `none` is an error. -/
abbrev KeyFile := String → String → Option (List UInt8)

/-- The value is copied to `ret`. -/
def keyFileGetString (file : KeyFile) (ret : Buffer) (groupName key : String)
    (defaultVal : List UInt8) : Effect × List UInt8 :=
  match file groupName key with
  | none => (.write ret 0 defaultVal, defaultVal)
  | some val => (.write ret 0 val, val)

/-- `n = 0`, and `n += sprintf(cmd+n, fmt)` for each format: the writes, and the string left in
`cmd`. -/
def sprintfs (va : List UInt8 → List UInt8) (fmts : List (List UInt8)) : List Effect × List UInt8 :=
  fmts.foldl (fun p fmt => (p.1 ++ [.write .cmd p.2.length (sprintf va fmt)],
    p.2 ++ sprintf va fmt)) ([], [])

/-- `possible_udisk`. -/
def possibleUdisk : List (List UInt8) := [ascii "sda1", ascii "sdb1", ascii "sdc1"]

/-- The `dir` that `do_mount` gives a stick. -/
def mountPoint (relativeFileName : List UInt8) : List UInt8 := ascii "/mnt/" ++ relativeFileName

/-- `read_wifi_param`, where `files` opens a key file and `va` is what conversions write. -/
def readWifiParam (va : List UInt8 → List UInt8) (files : List UInt8 → Option KeyFile)
    (dir : List UInt8) : List Effect :=
  let keyFileName := dir ++ ascii "/system.conf"
  let named := [.write .keyFileName 0 dir, .write .keyFileName dir.length (ascii "/system.conf")]
  match files keyFileName with
  | none => named ++ [.ntf (errStaNtf 1 0 2), .course 0, .err 2]
  | some file =>
    let (copied, ssid) := keyFileGetString file .ssid "wifi_set" "ssid" (ascii "skywalker")
    let (copied', passwd) := keyFileGetString file .passwd "wifi_set" "passwd" (ascii "wireless")
    let (written, cmd) := sprintfs va [ascii "uci set wireless.sta.ssid='", ssid, ascii "'"]
    let (written', cmd') := sprintfs va [ascii "uci set wireless.sta.key='", passwd, ascii "'"]
    let (written'', cmd'') := sprintfs va [ascii "cp ", keyFileName, ascii " ", ascii "/home/root"]
    named ++ [copied, copied'] ++ written ++ [.system cmd] ++ written' ++ [.system cmd',
      .system (ascii "uci commit wireless"), .system (ascii "/etc/init.d/network restart")] ++
      written'' ++ [.system cmd'']

/-- The notifications. -/
def ntfs (es : List Effect) : List UartSendInfo :=
  es.filterMap fun
    | .ntf info => some info
    | _ => none

/-- `net_state` after an effect. -/
def Effect.netState (netState : Fin 4 → NetState) : Effect → Fin 4 → NetState
  | .course c => Function.update netState Link.wifi.entry { netState Link.wifi.entry
      with course := c }
  | .err e => Function.update netState Link.wifi.entry { netState Link.wifi.entry with err := e }
  | _ => netState

/-- The write stays inside its array. -/
def Effect.Fits : Effect → Prop
  | .write b off text => off + text.length + 1 ≤ b.size
  | _ => True

instance : DecidablePred Effect.Fits
  | .write b off text => inferInstanceAs (Decidable (off + text.length + 1 ≤ b.size))
  | .system _ | .ntf _ | .course _ | .err _ => inferInstanceAs (Decidable True)

/-- The commands for the shell. -/
def commands (es : List Effect) : List (List UInt8) :=
  es.filterMap fun
    | .system command => some command
    | _ => none

/-- `uci set`, and what is set. -/
def uciSet (assignment : List UInt8) : List Token :=
  [.word (ascii "uci"), .word (ascii "set"), .word assignment]

/-- What `read_wifi_param` should do with a network's name and its passphrase: all its writes stay
inside their arrays, and the first two commands set the two values. -/
structure Configures (lone : Bool) (ssid passwd : List UInt8) (es : List Effect) : Prop where
  fits : ∀ e ∈ es, e.Fits
  assigned : ((commands es).take 2).map (readTokens lone) =
    [some (uciSet (ascii "wireless.sta.ssid=" ++ ssid)),
      some (uciSet (ascii "wireless.sta.key=" ++ passwd))]

section

variable {va : List UInt8 → List UInt8} {files : List UInt8 → Option KeyFile} {file : KeyFile}
  {dir ssid passwd : List UInt8} {lone : Bool}

/-- **Without the file** the call does what the steps of `LinkStatus` say. -/
theorem readWifiParam_failed (hfile : files (dir ++ ascii "/system.conf") = none) (s : Status)
    (hs : s.wifiParam = .idle) : ∃ s₁ s₂ s₃,
      s.step (.readWifiParam (-1)) = some (s₁, ntfs (readWifiParam va files dir)) ∧
      s₁.step .wifiCourse = some (s₂, []) ∧ s₂.step .wifiErr = some (s₃, []) ∧
      s₃.netState = (readWifiParam va files dir).foldl Effect.netState s.netState := by
  have he : readWifiParam va files dir = [.write .keyFileName 0 dir,
      .write .keyFileName dir.length (ascii "/system.conf"), .ntf (errStaNtf 1 0 2), .course 0,
      .err 2] := by
    simp [readWifiParam, hfile]
  rw [he]
  exact ⟨{ s with wifiParam := .course }, { s.setCourse Link.wifi.entry 0 with wifiParam := .err },
    { (s.setCourse Link.wifi.entry 0).setErr Link.wifi.entry 2 with wifiParam := .idle },
    by simp [Status.step, hs, ntfs], rfl, rfl, rfl⟩

/-- **With the file** the two values are copied, and four commands are made of them and of the name.
-/
theorem readWifiParam_found (hfile : files (dir ++ ascii "/system.conf") = some file)
    (hssid : file "wifi_set" "ssid" = some ssid)
    (hpasswd : file "wifi_set" "passwd" = some passwd) : readWifiParam va files dir =
      [.write .keyFileName 0 dir, .write .keyFileName dir.length (ascii "/system.conf"),
        .write .ssid 0 ssid, .write .passwd 0 passwd] ++
      (sprintfs va [ascii "uci set wireless.sta.ssid='", ssid, ascii "'"]).1 ++
      [.system (sprintfs va [ascii "uci set wireless.sta.ssid='", ssid, ascii "'"]).2] ++
      (sprintfs va [ascii "uci set wireless.sta.key='", passwd, ascii "'"]).1 ++
      [.system (sprintfs va [ascii "uci set wireless.sta.key='", passwd, ascii "'"]).2,
        .system (ascii "uci commit wireless"), .system (ascii "/etc/init.d/network restart")] ++
      (sprintfs va [ascii "cp ", dir ++ ascii "/system.conf", ascii " ", ascii "/home/root"]).1 ++
      [.system (sprintfs va [ascii "cp ", dir ++ ascii "/system.conf", ascii " ",
        ascii "/home/root"]).2] := by
  simp only [readWifiParam, hfile, keyFileGetString, hssid, hpasswd]
  rfl

/-! ### The arrays -/

/-- The command that sets a value. -/
theorem sprintfs_set (va : List UInt8 → List UInt8) {pre : List UInt8} (hpre : 0x25 ∉ pre)
    (s : List UInt8) :
    sprintfs va [pre, s, ascii "'"] = ([.write .cmd 0 pre, .write .cmd pre.length (sprintf va s),
      .write .cmd (pre ++ sprintf va s).length (ascii "'")], pre ++ sprintf va s ++ [0x27]) := by
  have hq : sprintf va [0x27] = [0x27] := sprintf_of_notMem va (by decide)
  have hmark : ascii "'" = [0x27] := by decide
  simp [sprintfs, sprintf_of_notMem va hpre, hq, hmark]

theorem fits_set (va : List UInt8 → List UInt8) {pre : List UInt8} (hpre : 0x25 ∉ pre)
    (s : List UInt8) :
    (∀ e ∈ (sprintfs va [pre, s, ascii "'"]).1, e.Fits) ↔
      pre.length + (sprintf va s).length + 2 ≤ 128 := by
  have hq : (ascii "'").length = 1 := rfl
  rw [sprintfs_set va hpre]
  simp only [List.forall_mem_cons, List.not_mem_nil, false_implies, implies_true,
    and_true, Effect.Fits,
    Buffer.size, List.length_append, hq]
  omega

/-- What does not depend on the values fits. -/
theorem fits_copy (va : List UInt8 → List UInt8) {udisk : List UInt8} (hu : udisk ∈ possibleUdisk) :
    (∀ e ∈ [Effect.write .keyFileName 0 (mountPoint udisk),
      .write .keyFileName (mountPoint udisk).length (ascii "/system.conf")], e.Fits) ∧
    ∀ e ∈ (sprintfs va [ascii "cp ", mountPoint udisk ++ ascii "/system.conf", ascii " ",
      ascii "/home/root"]).1, e.Fits := by
  have hlen : (mountPoint udisk).length = 9 := by revert udisk; decide
  have hname : 0x25 ∉ mountPoint udisk ++ ascii "/system.conf" := by revert udisk; decide
  have h1 : sprintf va (ascii "cp ") = ascii "cp " := sprintf_of_notMem va (by decide)
  have h2 : sprintf va (ascii " ") = ascii " " := sprintf_of_notMem va (by decide)
  have h3 : sprintf va (ascii "/home/root") = ascii "/home/root" := sprintf_of_notMem va (by decide)
  have hconf : (ascii "/system.conf").length = 12 := rfl
  have hcp : (ascii "cp ").length = 3 := rfl
  have hroot : (ascii "/home/root").length = 10 := rfl
  have hblank : (ascii " ").length = 1 := rfl
  simp [sprintfs, h1, h2, h3, sprintf_of_notMem va hname, Effect.Fits, Buffer.size, hlen, hconf,
    hcp, hroot, hblank]

theorem fits_iff (va : List UInt8 → List UInt8) {udisk : List UInt8} (hu : udisk ∈ possibleUdisk)
    (hfile : files (mountPoint udisk ++ ascii "/system.conf") = some file)
    (hssid : file "wifi_set" "ssid" = some ssid)
    (hpasswd : file "wifi_set" "passwd" = some passwd) :
    (∀ e ∈ readWifiParam va files (mountPoint udisk), e.Fits) ↔ ssid.length ≤ 31 ∧
    passwd.length ≤ 31 ∧
      (sprintf va ssid).length ≤ 99 ∧ (sprintf va passwd).length ≤ 100 := by
  have hpre : (ascii "uci set wireless.sta.ssid='").length = 27 := rfl
  have hpre' : (ascii "uci set wireless.sta.key='").length = 26 := rfl
  obtain ⟨hnamed, hcp⟩ := fits_copy va hu
  have hs := fits_set va (show 0x25 ∉ ascii "uci set wireless.sta.ssid='" by decide) ssid
  have hp := fits_set va (show 0x25 ∉ ascii "uci set wireless.sta.key='" by decide) passwd
  rw [readWifiParam_found hfile hssid hpasswd]
  simp only [List.forall_mem_append, hs, hp, hpre, hpre', eq_true hcp, and_true]
  simp only [List.forall_mem_cons, List.not_mem_nil, false_implies, implies_true, and_true,
    Effect.Fits, Buffer.size] at hnamed ⊢
  omega

/-! ### The commands -/

theorem run_setSsid (lone : Bool) : Reader.start.run lone (ascii "uci set wireless.sta.ssid='") =
    some ⟨[.word (ascii "uci"), .word (ascii "set")], some (ascii "wireless.sta.ssid="), false,
      .single⟩ := by
  cases lone <;> decide

theorem run_setKey (lone : Bool) : Reader.start.run lone (ascii "uci set wireless.sta.key='") =
    some ⟨[.word (ascii "uci"), .word (ascii "set")], some (ascii "wireless.sta.key="), false,
      .single⟩ := by
  cases lone <;> decide

theorem setSsid_bytes : ∀ b ∈ [0x22, 0x25, 0x5C], b ∉ ascii "uci set wireless.sta.ssid='" := by
  decide +kernel

theorem setKey_bytes : ∀ b ∈ [0x22, 0x25, 0x5C], b ∉ ascii "uci set wireless.sta.key='" := by
  decide +kernel

/-- The first two commands. -/
theorem take_commands (va : List UInt8 → List UInt8)
    (hfile : files (dir ++ ascii "/system.conf") = some file)
    (hssid : file "wifi_set" "ssid" = some ssid)
    (hpasswd : file "wifi_set" "passwd" = some passwd) :
    (commands (readWifiParam va files dir)).take 2 =
      [ascii "uci set wireless.sta.ssid='" ++ sprintf va ssid ++ [0x27],
        ascii "uci set wireless.sta.key='" ++ sprintf va passwd ++ [0x27]] := by
  rw [readWifiParam_found hfile hssid hpasswd, sprintfs_set va (by decide),
    sprintfs_set va (by decide)]
  simp [commands]

/-- What is asked of one call. -/
theorem configures_eq (lone : Bool) (va : List UInt8 → List UInt8) {udisk : List UInt8}
    (hu : udisk ∈ possibleUdisk) (hfile : files (mountPoint udisk ++ ascii "/system.conf") =
      some file)
    (hssid : file "wifi_set" "ssid" = some ssid)
    (hpasswd : file "wifi_set" "passwd" = some passwd) :
    Configures lone ssid passwd (readWifiParam va files (mountPoint udisk)) ↔
      (ssid.length ≤ 31 ∧ passwd.length ≤ 31 ∧ (sprintf va ssid).length ≤ 99 ∧
        (sprintf va passwd).length ≤ 100) ∧
      readTokens lone (ascii "uci set wireless.sta.ssid='" ++ sprintf va ssid ++ [0x27]) =
        some (uciSet (ascii "wireless.sta.ssid=" ++ ssid)) ∧
      readTokens lone (ascii "uci set wireless.sta.key='" ++ sprintf va passwd ++ [0x27]) =
        some (uciSet (ascii "wireless.sta.key=" ++ passwd)) := by
  have hcmd := take_commands va hfile hssid hpasswd
  constructor
  · intro h
    have ha := h.assigned
    rw [hcmd] at ha
    simp only [List.map_cons, List.map_nil, List.cons.injEq, and_true] at ha
    exact ⟨(fits_iff va hu hfile hssid hpasswd).mp h.fits, ha⟩
  · rintro ⟨hfits, hs, hp⟩
    refine ⟨(fits_iff va hu hfile hssid hpasswd).mpr hfits, ?_⟩
    rw [hcmd, List.map_cons, List.map_cons, List.map_nil, hs, hp]

end

/-- **When the stick sets the wifi parameters**: exactly when name and passphrase have at most 31
bytes each, and no `%` and no `'`. -/
theorem configures_iff (lone : Bool) {udisk ssid passwd : List UInt8} (hu : udisk ∈ possibleUdisk)
    {files : List UInt8 → Option KeyFile} {file : KeyFile}
    (hfile : files (mountPoint udisk ++ ascii "/system.conf") = some file)
    (hssid : file "wifi_set" "ssid" = some ssid)
    (hpasswd : file "wifi_set" "passwd" = some passwd) :
    (∀ va, Configures lone ssid passwd (readWifiParam va files (mountPoint udisk))) ↔
      (ssid.length ≤ 31 ∧ 0x25 ∉ ssid ∧ 0x27 ∉ ssid) ∧
        passwd.length ≤ 31 ∧ 0x25 ∉ passwd ∧ 0x27 ∉ passwd := by
  have hset := fun va => configures_eq lone va hu hfile hssid hpasswd
  rw [forall_congr' hset]
  constructor
  · intro h
    have hs := (readTokens_format_iff (run_setSsid lone) setSsid_bytes).mp fun va => (h va).2.1
    have hp := (readTokens_format_iff (run_setKey lone) setKey_bytes).mp fun va => (h va).2.2
    obtain ⟨⟨hl, hl', -⟩, -⟩ := h id
    exact ⟨⟨hl, hs⟩, hl', hp⟩
  · rintro ⟨⟨hl, hs⟩, hl', hp⟩ va
    refine ⟨⟨hl, hl', ?_, ?_⟩, (readTokens_format_iff (run_setSsid lone) setSsid_bytes).mpr hs va,
      (readTokens_format_iff (run_setKey lone) setKey_bytes).mpr hp va⟩
    · rw [sprintf_of_notMem va hs.1]
      omega
    · rw [sprintf_of_notMem va hp.1]
      omega

/-- A file with the two values. -/
def systemConf (ssid passwd : List UInt8) : KeyFile := fun _ key =>
  some (if key = "ssid" then ssid else passwd)

/-- A name with two quotes. -/
def rebootName : List UInt8 := ascii "a';reboot;'"

/-- It has the shell restart the device; a name of 32 bytes is written behind the end of `ssid`. -/
theorem not_configures_reboot :
    let es := readWifiParam id (fun _ => some (systemConf rebootName (ascii "password")))
      (mountPoint (ascii "sda1"))
    let es' := readWifiParam id
      (fun _ => some (systemConf (List.replicate 32 0x61) (ascii "password")))
        (mountPoint (ascii "sda1"))
    (((commands es).take 1).map (readTokens true) = [some (uciSet (ascii "wireless.sta.ssid=a") ++
        [.op 0x3B true, .word (ascii "reboot"), .op 0x3B true, .word []])] ∧
      ¬ Configures true rebootName (ascii "password") es) ∧
    ¬ Configures true (List.replicate 32 0x61) (ascii "password") es' := by
  refine ⟨⟨by decide +kernel, fun h => ?_⟩, fun h => ?_⟩
  · exact absurd h.assigned (by decide +kernel)
  · have hfits := h.fits (.write .ssid 0 (List.replicate 32 0x61))
      (by simp [readWifiParam, keyFileGetString, systemConf])
    exact absurd hfits (by decide)

/-- The theorem applied to a name with a blank and a `$`. -/
theorem configures_iff_cafe :
    (∀ va, Configures true (ascii "Cafe $5") (ascii "pass word") (readWifiParam va
      (fun _ => some (systemConf (ascii "Cafe $5") (ascii "pass word")))
        (mountPoint (ascii "sdb1")))) ↔
      ((ascii "Cafe $5").length ≤ 31 ∧ 0x25 ∉ ascii "Cafe $5" ∧ 0x27 ∉ ascii "Cafe $5") ∧
        (ascii "pass word").length ≤ 31 ∧ 0x25 ∉ ascii "pass word" ∧ 0x27 ∉ ascii "pass word" :=
  configures_iff true (by decide) rfl rfl rfl

end MultiPortConvertor.Usb.WifiParam
