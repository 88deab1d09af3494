import AcceleratorScheduler.Slot.Basic

/-! Answers to requests, and their slots: sequence number, status, opcode, time, eight zero
bytes. -/
namespace AcceleratorScheduler

structure Response where
  seq : UInt64
  /-- Zero, or the negative result code of a refusal. -/
  status : Int32
  opcode : UInt32
  timestamp : Int64
  deriving DecidableEq, Repr

namespace Response

def encode (r : Response) : Slot :=
  .ofBytes
    (LittleEndian.encode 8 r.seq.toNat ++ LittleEndian.encode 4 r.status.toUInt32.toNat
      ++ LittleEndian.encode 4 r.opcode.toNat ++ LittleEndian.encode 8 r.timestamp.toUInt64.toNat
      ++ LittleEndian.encode 8 0)
    (by simp [slotSize])

/-- Reads the four fields; the padding is not looked at. -/
def decode (slot : Slot) : Response where
  seq := .ofNat (slot.field 0 8)
  status := (UInt32.ofNat (slot.field 8 4)).toInt32
  opcode := .ofNat (slot.field 12 4)
  timestamp := (UInt64.ofNat (slot.field 16 8)).toInt64

end Response

end AcceleratorScheduler
