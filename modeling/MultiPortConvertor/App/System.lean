import MultiPortConvertor.Lib.Bytes
import Mathlib.Data.Fin.VecNotation

/-! # The state of the device

The globals of `app/system.h` and `net/net.h` that the UART commands report: the versions, the
address and the clock settings in `system_info`, and the four connections in `net_state`. -/

namespace MultiPortConvertor.App.System

/-- `net_state_t`. -/
structure NetState where
  state : UInt8
  course : UInt8
  err : UInt8
  deriving DecidableEq

/-- The bytes of a `net_state_t` in memory. -/
def NetState.bytes (s : NetState) : List UInt8 := [s.state, s.course, s.err]

@[simp] theorem NetState.length_bytes (s : NetState) : s.bytes.length = 3 := rfl

/-- `system_info_t`. -/
structure SystemInfo where
  firmwareVer : Fin 3 → UInt8
  hardwareVer : Fin 3 → UInt8
  protocolVer : Fin 3 → UInt8
  mac : Fin 6 → UInt8
  timeValid : UInt8
  timezone : Int16
  poweron : UInt8

/-- `net_state` after `sys_context_init`. -/
def netStateInit : Fin 4 → NetState :=
  ![⟨0, 0, 0⟩, ⟨1, 0, 0⟩, ⟨2, 0, 0⟩, ⟨3, 0, 1⟩]

/-- `system_info` as `main.c` initialises it. -/
def systemInfoInit : SystemInfo where
  firmwareVer := ![1, 0, 0]
  hardwareVer := ![1, 0, 0]
  protocolVer := ![1, 0, 0]
  mac := fun _ => 0
  timeValid := 0
  timezone := 0
  poweron := 1

end MultiPortConvertor.App.System
