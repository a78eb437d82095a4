import Odin4.Usb.BulkRead

/-!
# Reading once

A single read takes whatever one transfer delivers. A transfer that failed is
tried again from the front of the buffer, for a bounded number of attempts and
only while the device is there.
-/

namespace Odin4

open Interaction Program

namespace UsbConnection

variable (usb : UsbConnection)

/-- A stalled endpoint is cleared before it is used again. -/
def clearStall (err : Int) (endpoint : UInt8) : Libusb Unit :=
  if err = libusbErrorPipe then (fun _ => ()) <$> libusb (.clearHalt usb.handle endpoint)
  else pure ()

/-- The attempts of a single read, the last `left` of which remain. -/
def readAttempts (timeoutMs : Nat) : (left : Nat) → Bytes → Nat → Libusb (Bool × Bytes × Nat)
  | 0, buffer, actualLength => return (false, buffer, actualLength)
  | left + 1, buffer, _ => do
      let transfer ←
        libusb (.bulkIn usb.handle usb.endpointIn (clampSizeToInt buffer.length) timeoutMs)
      let buffer := writeAt buffer 0 transfer.delivered
      let actualLength := transfer.delivered.length
      if transfer.err = 0 then return (true, buffer, actualLength)
      if transfer.err = libusbErrorNoDevice then return (false, buffer, actualLength)
      usb.clearStall transfer.err usb.endpointIn
      sleepBeforeRetry (usbRetryCount - (left + 1))
      readAttempts timeoutMs left buffer actualLength

/-- Whether it succeeded, the buffer and the length of the last transfer. -/
def bulkReadOnce (buffer : Bytes) (timeoutMs : Nat) : Libusb (Bool × Bytes × Nat) :=
  usb.readAttempts timeoutMs usbRetryCount buffer 0

end UsbConnection

section Reading

variable {usb : UsbConnection} {timeoutMs left actualLength count : Nat} {buffer data : Bytes}
variable {trace : LibusbTrace}

/-- A read that succeeds returns what its last transfer delivered. -/
theorem readAttempts_reads
    (hexec : (usb.readAttempts timeoutMs left buffer actualLength).Executes trace
      (true, data, count)) :
    ∃ earlier length, ∃ transfer : InTransfer length,
      trace = earlier ++ [⟨.bulkIn usb.handle usb.endpointIn length timeoutMs, transfer⟩] ∧
        transfer.err = 0 ∧ count ≤ buffer.length ∧ data.take count = transfer.delivered := by
  induction left generalizing buffer actualLength trace with
  | zero =>
      obtain ⟨-, hresult⟩ := executes_pure.mp hexec
      simp at hresult
  | succ left ih =>
      obtain ⟨transfer, rest, rfl, hrest⟩ := executes_libusb_bind.mp hexec
      have hclamp := clampSizeToInt_le buffer.length
      have hlength := transfer.le_length
      have hfit : 0 + transfer.delivered.length ≤ buffer.length := by omega
      dsimp only at hrest
      split at hrest
      next herr =>
        obtain ⟨rfl, -, hresult⟩ := executes_pure_pair.mp hrest
        obtain ⟨rfl, rfl⟩ := Prod.mk.inj hresult
        have htake := take_writeAt hfit
        rw [Nat.zero_add, List.take_zero, List.nil_append] at htake
        rw [List.append_nil]
        exact ⟨[], _, transfer, rfl, herr, by omega, htake⟩
      next herr =>
        split at hrest
        next hgone =>
          obtain ⟨-, hresult⟩ := executes_pure.mp hrest
          simp at hresult
        next hgone =>
          obtain ⟨second, _, afterClear, rfl, hclear, hafter⟩ := executes_bind.mp hrest
          obtain ⟨third, _, tail, rfl, hpause, htail⟩ := executes_bind.mp hafter
          obtain ⟨earlier, length, last, rfl, hlast, hcount, htake⟩ := ih htail
          rw [length_writeAt hfit] at hcount
          rw [← List.append_assoc, ← List.append_assoc, ← List.append_assoc]
          exact ⟨_, length, last, rfl, hlast, hcount, htake⟩

end Reading

end Odin4
