import Intel8080.Device

/-! Devices for observing a program: one that stays silent and one that reports every access. -/

namespace Intel8080

/-- A probe leaves the machine as it is, except that a recorder can supply input bytes. -/
inductive Probe
  /-- Neither reports nor supplies anything. -/
  | silent
  /-- Reports each access and supplies the listed bytes in turn. -/
  | recorder (supply : List UInt8)
  deriving DecidableEq, Inhabited, Repr

/-- What a recorder reports of an access. -/
def PortAccess.record (access : PortAccess) (direction : Direction) : AccessRecord where
  direction := direction
  port := access.port
  value := access.value
  registers := access.registers
  pointed := access.memory.read access.registers.hl

instance : Device Probe where
  write
    | .silent, _ => (.silent, [])
    | .recorder supply, access => (.recorder supply, [.access (access.record .output)])
  read
    | .silent, access => (access.value, .silent, [])
    | .recorder [], access => (access.value, .recorder [], [.access (access.record .input)])
    | .recorder (next :: rest), access => (next, .recorder rest, [.access (access.record .input)])

end Intel8080
