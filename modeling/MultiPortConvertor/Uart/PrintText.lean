import MultiPortConvertor.Lib.Shell
import MultiPortConvertor.Uart.History

/-! # The text of a print command

`print_ask` passes the text received to `sprintf` as a format, and puts what comes out between
double quotes in a command for the shell. So the text is printed as it was sent exactly when it has
no `%` and is plain (`prints_iff`). -/

namespace MultiPortConvertor.Uart.PrintText

open MultiPortConvertor.Lib.Bytes MultiPortConvertor.Lib.CString MultiPortConvertor.Lib.Shell
open MultiPortConvertor.App.System
open MultiPortConvertor.Uart.Format MultiPortConvertor.Uart.Handlers MultiPortConvertor.Uart.Parse
open MultiPortConvertor.Uart.History

/-- `sizeof(print_buf)`. -/
def sizeofPrintBuf : ℕ := 1024

/-- A single `echo`, whose one argument is the text, with its output going to the printer. -/
def echoToPrinter (s : List UInt8) : List Token :=
  [.word (ascii "echo"), .word s, .op 0x3E false, .word (ascii "/dev/usb/lp0")]

/-- What the command should be. -/
structure Prints (lone : Bool) (s command : List UInt8) : Prop where
  fits : command.length + 1 ≤ sizeofPrintBuf
  read : readTokens lone command = some (echoToPrinter s)

/-- The commands for the shell. -/
def commands (effects : List Effect) : List (List UInt8) :=
  effects.filterMap fun
    | .popen command => some command
    | .postRecordUrl _ => none

/-- Every command that the frame leads to prints the text, whatever a conversion without its
argument writes. -/
def PrintsFaithfully (lone : Bool) (s : List UInt8) (c : UartCmdFormat) : Prop :=
  ∀ (va : List UInt8 → List UInt8) (env : Env) (respdata : UartCmdFormat),
    ∀ command ∈ commands (seen respdata (uartProtocolParse va c env)).2.2, Prints lone s command

section

variable {c : UartCmdFormat} {s : List UInt8} {lone : Bool}

/-- The string that starts at `data`. -/
theorem dataStr_eq_of_payload (hs : payload c = s ++ [0]) (h0 : 0 ∉ s) : dataStr c = s := by
  have hlen : c.len - 4 = s.length + 1 := by
    have h := congrArg List.length hs
    simpa [payload] using h
  rw [payload, hlen, slice_succ] at hs
  obtain ⟨htext, hzero⟩ := List.append_inj' hs rfl
  have hlt := len_lt c
  have hz : c (7 + s.length) = 0 := by simpa using hzero
  have hne : ∀ i < s.length, c (7 + i) ≠ 0 := by
    intro i hi he
    refine h0 ?_
    rw [← htext, ← he]
    exact List.mem_map_of_mem (List.mem_range.mpr hi)
  exact (cstr_eq (by omega) hz hne).trans htext

/-- The frame leads to a command exactly when there is no printer. -/
theorem commands_print (va : List UInt8 → List UInt8) (env : Env) (respdata : UartCmdFormat)
    (hc : procotolCheck c = true) (hcmd : c.cmdId = 0x23) :
    commands (seen respdata (uartProtocolParse va c env)).2.2 =
      if env.lp0 then [] else [printBuf va c] := by
  rw [parse_print va env hc hcmd, printAsk_eq]
  split_ifs <;> rfl

theorem printsFaithfully_iff (hc : procotolCheck c = true) (hcmd : c.cmdId = 0x23)
    (hs : payload c = s ++ [0]) (h0 : 0 ∉ s) : PrintsFaithfully lone s c ↔ ∀ va, Prints lone s
      (ascii "echo \"" ++ sprintf va s ++ ascii "\" > /dev/usb/lp0") := by
  have hbuf : ∀ va, printBuf va c = ascii "echo \"" ++ sprintf va s ++
      ascii "\" > /dev/usb/lp0" := by
    intro va
    rw [printBuf, dataStr_eq_of_payload hs h0]
  constructor
  · intro h va
    let env : Env := ⟨systemInfoInit, netStateInit, 0, false, 0⟩
    have hmem := h va env (filled 0) (printBuf va c)
      (by simp [commands_print va env _ hc hcmd, env])
    rwa [hbuf] at hmem
  · intro h va env respdata command hm
    rw [commands_print va env _ hc hcmd] at hm
    split_ifs at hm
    · cases hm
    · rw [List.mem_singleton.mp hm, hbuf]
      exact h va

/-! ### The command -/

/-- Up to the text. -/
theorem run_echo : Reader.start.run lone (ascii "echo \"") =
    some (.quoted [.word (ascii "echo")] [] false false) := by
  cases lone <;> decide

/-- Behind the text. -/
theorem run_printer (lone : Bool) (w : List UInt8) :
    ((Reader.closed [.word (ascii "echo")] w).run lone (ascii " > /dev/usb/lp0")).bind
      (Reader.finish lone) = some (echoToPrinter w) := by
  cases lone <;> rfl

theorem quote_notMem : Kind.double.mark ∉ ascii " > /dev/usb/lp0" := by decide

theorem readTokens_command (s : List UInt8) :
    readTokens lone (ascii "echo \"" ++ s ++ ascii "\" > /dev/usb/lp0") =
      ((Reader.quoted [.word (ascii "echo")] [] false false).run lone (s ++ [0x22])).bind fun r =>
        (r.run lone (ascii " > /dev/usb/lp0")).bind (Reader.finish lone) := by
  have hpost : ascii "\" > /dev/usb/lp0" = [0x22] ++ ascii " > /dev/usb/lp0" := by decide
  rw [hpost, List.append_assoc, ← List.append_assoc s, readTokens, Reader.run_append, run_echo,
    Option.bind_some, Reader.run_append, Option.bind_assoc]

/-- **The command is read as it should be** exactly when the text is plain. -/
theorem readTokens_command_iff (hq : 0x22 ∉ s) :
    readTokens lone (ascii "echo \"" ++ s ++ ascii "\" > /dev/usb/lp0") = some (echoToPrinter s) ↔
      Plain lone s := by
  have hiff : (Reader.quoted [.word (ascii "echo")] [] false false).run lone (s ++ [0x22]) =
      some (.closed [.word (ascii "echo")] s) ↔ Plain lone s := Reader.run_double_iff _ hq
  rw [readTokens_command]
  constructor
  · intro h
    obtain ⟨r, hr, h⟩ := Option.bind_eq_some_iff.mp h
    rcases Reader.run_quoted_mark hq hr with ⟨v, rfl⟩ | hi
    · have hv : echoToPrinter v = echoToPrinter s :=
        Option.some.inj ((run_printer lone v).symm.trans h)
      obtain rfl : v = s := by simpa [echoToPrinter] using hv
      exact hiff.mp hr
    · obtain ⟨r', hr', hf⟩ := Option.bind_eq_some_iff.mp h
      have hin := Reader.run_inside hr' hi quote_notMem
      rw [Reader.inside_of_finish hf] at hin
      cases hin
  · intro h
    rw [hiff.mpr h]
    exact run_printer lone s

theorem sublist_echoToPrinter (s : List UInt8) :
    s.Sublist ((echoToPrinter s).flatMap Token.bytes) := by
  have h : (echoToPrinter s).flatMap Token.bytes =
      ascii "echo" ++ s ++ (0x3E :: ascii "/dev/usb/lp0") := by
    simp [echoToPrinter, Token.bytes]
  rw [h, List.append_assoc]
  exact (List.sublist_append_left s _).trans (List.sublist_append_right _ _)

end

/-- **When a text is printed as it was sent.** The commands that a print frame leads to print its
text exactly when the text has no `%` and is plain. -/
theorem prints_iff (lone : Bool) {c : UartCmdFormat} (hc : procotolCheck c = true)
    (hcmd : c.cmdId = 0x23) {s : List UInt8} (hs : payload c = s ++ [0]) (h0 : 0 ∉ s)
    (hl : s.length ≤ 123) : PrintsFaithfully lone s c ↔ 0x25 ∉ s ∧ Plain lone s := by
  have hpre : ∀ b ∈ [0x25, 0x27, 0x5C], b ∉ ascii "echo \"" := by decide +kernel
  have hpost : ∀ b ∈ [0x25, 0x27, 0x5C], b ∉ ascii "\" > /dev/usb/lp0" := by decide +kernel
  have hsub := sublist_echoToPrinter s
  rw [printsFaithfully_iff hc hcmd hs h0]
  constructor
  · intro h
    have hread := (h fun _ => []).read
    have hfmt : 0x25 ∉ s := format_notMem hread hsub (hpre _ (by simp)) (hpost _ (by simp))
    rw [sprintf_of_notMem _ hfmt] at hread
    have hq : 0x22 ∉ s := splice_notMem hread hsub .double (hpre _ (by simp)) (hpost _ (by simp))
      (hpre _ (by simp [Kind.other, Kind.mark])) (hpost _ (by simp [Kind.other, Kind.mark]))
    exact ⟨hfmt, (readTokens_command_iff hq).mp hread⟩
  · rintro ⟨hfmt, hp⟩ va
    rw [sprintf_of_notMem va hfmt]
    refine ⟨?_, (readTokens_command_iff (plain_notMem hp)).mpr hp⟩
    have h1 : (ascii "echo \"").length = 6 := rfl
    have h2 : (ascii "\" > /dev/usb/lp0").length = 16 := rfl
    rw [List.length_append, List.length_append, h1, h2, sizeofPrintBuf]
    omega

/-- The frame that asks for a text to be printed. -/
def printFrame (s : List UInt8) : UartCmdFormat :=
  let body := [0x00, 0x01, 0x01, 0x23] ++ s ++ [0]
  fun i => ([0xC0, 0x00, UInt8.ofNat body.length] ++ body ++ [UInt8.ofNat (byteSum body)]).getD i 0

/-- A text that closes the quotes. -/
def rebootText : List UInt8 := ascii "\";reboot;\""

/-- It has the shell restart the device. -/
theorem not_printsFaithfully_reboot : procotolCheck (printFrame rebootText) = true ∧
    UartCmdFormat.cmdId (printFrame rebootText) = 0x23 ∧
    payload (printFrame rebootText) = rebootText ++ [0] ∧
    readTokens true (printBuf id (printFrame rebootText)) =
      some [.word (ascii "echo"), .word [], .op 0x3B true, .word (ascii "reboot"), .op 0x3B true,
        .word [], .op 0x3E false, .word (ascii "/dev/usb/lp0")] ∧
    ¬ PrintsFaithfully true rebootText (printFrame rebootText) := by
  have hc : procotolCheck (printFrame rebootText) = true := by decide +kernel
  have hs : payload (printFrame rebootText) = rebootText ++ [0] := by
    decide +kernel
  refine ⟨hc, by decide +kernel, hs, by decide +kernel, fun h => ?_⟩
  have hread := ((printsFaithfully_iff hc (by decide +kernel) hs (by decide)).mp h id).read
  exact absurd hread (by decide +kernel)

/-- The theorem applied to a short report. -/
theorem prints_iff_report :
    PrintsFaithfully true (ascii "72 bpm, 5 $") (printFrame (ascii "72 bpm, 5 $")) ↔
      0x25 ∉ ascii "72 bpm, 5 $" ∧ Plain true (ascii "72 bpm, 5 $") :=
  prints_iff true (by decide +kernel) (by decide +kernel) (by decide +kernel)
    (by decide) (by decide)

end MultiPortConvertor.Uart.PrintText
