import Mathlib.Data.Int.Bitwise
import Mathlib.Data.List.DropRight
import Odin4.Usb.Libusb

/-!
# Receiving a packet

A packet is collected from several transfers, each of which delivers its bytes
behind those of the one before. After a transfer that failed or delivered
nothing another attempt is made, which starts again at the front of the
buffer: bytes of an attempt that was given up are lost.
-/

namespace Odin4

open Interaction Program

/-! ## The transfers of an execution -/

/-- The bytes that a transfer from the device delivered. -/
def LibusbEvent.delivered (event : LibusbEvent) : Bytes :=
  match event with
  | ⟨.bulkIn .., reply⟩ => reply.delivered
  | _ => []

/-- The pause before another attempt. -/
def LibusbEvent.isPause (event : LibusbEvent) : Bool :=
  match event.call with
  | .sleepFor _ => true
  | _ => false

/-- All that the device delivered, in order. -/
def deliveredBytes (trace : LibusbTrace) : Bytes := trace.flatMap LibusbEvent.delivered

/-- The attempts before the last, each of which ends with a pause. -/
def givenUpAttempts (trace : LibusbTrace) : LibusbTrace :=
  trace.rdropWhile fun event => !LibusbEvent.isPause event

@[simp] theorem deliveredBytes_append (first second : LibusbTrace) :
    deliveredBytes (first ++ second) = deliveredBytes first ++ deliveredBytes second :=
  List.flatMap_append

theorem deliveredBytes_bulkIn (handle : Option DeviceHandle) (endpoint : UInt8)
    (length timeoutMs : Nat) (reply : InTransfer length) :
    deliveredBytes [⟨.bulkIn handle endpoint length timeoutMs, reply⟩] = reply.delivered :=
  List.append_nil _

theorem givenUpAttempts_append {earlier last : LibusbTrace}
    (hlast : ∀ event ∈ last, LibusbEvent.isPause event = false)
    (hearlier : ∀ event ∈ earlier.getLast?, LibusbEvent.isPause event = true) :
    givenUpAttempts (earlier ++ last) = earlier := by
  induction last using List.reverseRecOn with
  | nil =>
      rw [List.append_nil, givenUpAttempts, List.rdropWhile_eq_self_iff]
      intro hne
      simp [hearlier _ (List.getLast?_eq_some_getLast hne)]
  | append_singleton rest event ih =>
      rw [← List.append_assoc, givenUpAttempts, List.rdropWhile_concat_pos]
      · exact ih fun event' hmem => hlast event' (List.mem_append_left _ hmem)
      · simp [hlast event (List.mem_append_right _ List.mem_cons_self)]

/-! ## The receive buffer -/

/-- Store `delivered` at `offset`. -/
def writeAt (buffer : Bytes) (offset : Nat) (delivered : Bytes) : Bytes :=
  buffer.take offset ++ delivered ++ buffer.drop (offset + delivered.length)

section Buffer

variable {buffer delivered : Bytes} {offset : Nat}

theorem length_writeAt (h : offset + delivered.length ≤ buffer.length) :
    (writeAt buffer offset delivered).length = buffer.length := by
  rw [writeAt, List.length_append, List.length_append, List.length_take, List.length_drop]
  omega

/-- What was stored stands behind what was in front of it. -/
theorem take_writeAt (h : offset + delivered.length ≤ buffer.length) :
    (writeAt buffer offset delivered).take (offset + delivered.length) =
      buffer.take offset ++ delivered := by
  have hlength : (buffer.take offset ++ delivered).length = offset + delivered.length := by
    rw [List.length_append, List.length_take]
    omega
  rw [writeAt, ← hlength, List.take_left]

end Buffer

/-! ## The reader -/

/-- Conversion to a signed number of 32 bits. -/
def toInt32 (value : Nat) : Int := Int.bmod value (2 ^ 32)

theorem toInt32_eq {value : Nat} (h : value < 2 ^ 31) : toInt32 value = value := by
  unfold toInt32
  rw [Int.bmod_eq_of_le]
  · omega
  · omega

theorem toInt32_lt (value : Nat) : toInt32 value < 2 ^ 31 := by
  have h := Int.bmod_lt (x := (value : Int)) (m := 2 ^ 32) (by decide)
  unfold toInt32
  omega

namespace UsbConnection

variable (usb : UsbConnection)

/-- How far the inner loop of the reader came. -/
structure ReceivePass where
  buffer : Bytes
  received : Nat
  actualLength : Int
  givenUp : Bool

/-- Transfers until enough is received, or one fails or delivers nothing. -/
def receiveWhile (timeout : Nat) (timeoutOverrideMs : Int) (size required : Nat) (buffer : Bytes)
    (received : Nat) (actualLength : Int) : Libusb ReceivePass :=
  if _hmore : received < required ∧ received < size then do
    let remaining := size - received
    let transfer ← libusb (.bulkIn usb.handle usb.endpointIn (clampSizeToInt remaining) timeout)
    let chunk := transfer.delivered
    let buffer' := writeAt buffer received chunk
    let received' := received + chunk.length
    let actualLength' := if 0 < chunk.length then toInt32 received' else actualLength
    if transfer.err = 0 then
      if required ≤ received' then return ⟨buffer', received', actualLength', false⟩
      else if _hchunk : chunk.length = 0 then
        return ⟨buffer', received', actualLength', false⟩
      else receiveWhile timeout timeoutOverrideMs size required buffer' received' actualLength'
    else if transfer.err = libusbErrorPipe then
      let _ ← libusb (.clearHalt usb.handle usb.endpointIn)
      return ⟨buffer', received', actualLength', false⟩
    else if transfer.err = libusbErrorTimeout ∧ 0 < timeoutOverrideMs then
      return ⟨buffer', received', actualLength', true⟩
    else
      return ⟨buffer', received', actualLength', transfer.err = libusbErrorNoDevice⟩
  else
    return ⟨buffer, received, actualLength, false⟩
termination_by size - received
decreasing_by
  have hchunk : transfer.delivered.length ≠ 0 := _hchunk
  omega

/-- The attempts of the reader, the last `left` of which remain. -/
def receiveAttempts (timeout : Nat) (timeoutOverrideMs : Int) (size required : Nat) :
    (left : Nat) → Bytes → Int → Libusb (Bool × Bytes × Int)
  | 0, buffer, actualLength => return (false, buffer, actualLength)
  | left + 1, buffer, _ => do
      let pass ← usb.receiveWhile timeout timeoutOverrideMs size required buffer 0 0
      if pass.givenUp then return (false, pass.buffer, pass.actualLength)
      if required ≤ pass.received ∧ pass.received ≤ size then
        return (true, pass.buffer, pass.actualLength)
      sleepBeforeRetry (usbRetryCount - (left + 1))
      receiveAttempts timeout timeoutOverrideMs size required left pass.buffer pass.actualLength

/-- Whether it succeeded, the buffer and the reported length. -/
def receivePacket (buffer : Bytes) (isControl : Bool) (minSize : Nat) (timeoutOverrideMs : Int) :
    Libusb (Bool × Bytes × Int) :=
  let timeout :=
    if 0 < timeoutOverrideMs then timeoutOverrideMs.toNat
    else if isControl then usbTimeoutControl else usbTimeoutBulk
  usb.receiveAttempts timeout timeoutOverrideMs buffer.length (requiredMin buffer.length minSize)
    usbRetryCount buffer 0

end UsbConnection

/-! ## What a call receives -/

section Receiving

variable {usb : UsbConnection} {timeout size required : Nat} {timeoutOverrideMs : Int}
variable {buffer : Bytes} {trace : LibusbTrace}

/-- What one attempt has made of the buffer. -/
structure Receives (size : Nat) (buffer : Bytes) (received : Nat) (trace : LibusbTrace)
    (pass : UsbConnection.ReceivePass) : Prop where
  received_eq : pass.received = received + (deliveredBytes trace).length
  received_le : pass.received ≤ size
  length_eq : pass.buffer.length = buffer.length
  take_eq : pass.buffer.take pass.received = buffer.take received ++ deliveredBytes trace
  actual_eq : pass.actualLength = toInt32 pass.received
  no_pause : ∀ event ∈ trace, LibusbEvent.isPause event = false

theorem Receives.trans {received : Nat} {first second : LibusbTrace}
    {middle pass : UsbConnection.ReceivePass} (hfirst : Receives size buffer received first middle)
    (hsecond : Receives size middle.buffer middle.received second pass) :
    Receives size buffer received (first ++ second) pass := by
  constructor
  · rw [hsecond.received_eq, hfirst.received_eq, deliveredBytes_append, List.length_append,
      Nat.add_assoc]
  · exact hsecond.received_le
  · exact hsecond.length_eq.trans hfirst.length_eq
  · rw [hsecond.take_eq, hfirst.take_eq, deliveredBytes_append, List.append_assoc]
  · exact hsecond.actual_eq
  · intro event hmem
    rcases List.mem_append.mp hmem with hmem | hmem
    · exact hfirst.no_pause event hmem
    · exact hsecond.no_pause event hmem

/-- One transfer, and whatever follows without delivering anything. -/
theorem Receives.of_transfer {received length : Nat} {actualLength : Int} {givenUp : Bool}
    {handle : Option DeviceHandle} {endpoint : UInt8} {transfer : InTransfer length}
    {tail : LibusbTrace} (hsize : size ≤ buffer.length)
    (hfit : received + transfer.delivered.length ≤ size) (hactual : actualLength = toInt32 received)
    (htail : deliveredBytes tail = []) (hpause : ∀ event ∈ tail, LibusbEvent.isPause event = false) :
    Receives size buffer received
      ([⟨.bulkIn handle endpoint length timeout, transfer⟩] ++ tail)
      ⟨writeAt buffer received transfer.delivered, received + transfer.delivered.length,
        if 0 < transfer.delivered.length then toInt32 (received + transfer.delivered.length)
        else actualLength, givenUp⟩ := by
  have hdelivered : deliveredBytes ([⟨.bulkIn handle endpoint length timeout, transfer⟩] ++ tail) =
      transfer.delivered := by
    rw [deliveredBytes_append, deliveredBytes_bulkIn, htail, List.append_nil]
  constructor
  · rw [hdelivered]
  · exact hfit
  · exact length_writeAt (hfit.trans hsize)
  · rw [hdelivered]
    exact take_writeAt (hfit.trans hsize)
  · by_cases hchunk : 0 < transfer.delivered.length
    · exact if_pos hchunk
    · rw [Nat.eq_zero_of_not_pos hchunk]
      exact hactual
  · intro event hmem
    rcases List.mem_append.mp hmem with hmem | hmem
    · rw [List.mem_singleton.mp hmem]
      rfl
    · exact hpause event hmem

/-- An attempt collects what the device delivers. -/
theorem receiveWhile_receives {received : Nat} {actualLength : Int}
    {pass : UsbConnection.ReceivePass} (hsize : size ≤ buffer.length) (hreceived : received ≤ size)
    (hactual : actualLength = toInt32 received)
    (hexec : (usb.receiveWhile timeout timeoutOverrideMs size required buffer received
      actualLength).Executes trace pass) :
    Receives size buffer received trace pass := by
  induction hleft : size - received using Nat.strong_induction_on
    generalizing received buffer actualLength trace with
  | _ left ih =>
      rw [UsbConnection.receiveWhile] at hexec
      split at hexec
      next hmore =>
        obtain ⟨transfer, rest, rfl, hrest⟩ := executes_libusb_bind.mp hexec
        have hclamp := clampSizeToInt_le (size - received)
        have hlength := transfer.le_length
        have hfit : received + transfer.delivered.length ≤ size := by omega
        dsimp only at hrest
        split at hrest
        next herr =>
          split at hrest
          next hall =>
            obtain ⟨rfl, rfl⟩ := executes_pure.mp hrest
            exact .of_transfer hsize hfit hactual rfl (by simp)
          next hall =>
            split at hrest
            next hchunk =>
              obtain ⟨rfl, rfl⟩ := executes_pure.mp hrest
              exact .of_transfer hsize hfit hactual rfl (by simp)
            next hchunk =>
              -- The loop goes on only behind a transfer that delivered something.
              have hone : Receives size buffer received ([⟨.bulkIn usb.handle usb.endpointIn
                  (clampSizeToInt (size - received)) timeout, transfer⟩] ++ []) ⟨_, _, _, false⟩ :=
                .of_transfer hsize hfit hactual rfl (by simp)
              have hdecreasing : size - (received + transfer.delivered.length) < left := by omega
              have hbuffer : size ≤ (writeAt buffer received transfer.delivered).length := by
                rw [hone.length_eq]
                exact hsize
              exact hone.trans (ih _ hdecreasing hbuffer hfit hone.actual_eq hrest rfl)
        next herr =>
          split at hrest
          next hpipe =>
            obtain ⟨reply, tail, rfl, htail⟩ := executes_libusb_bind.mp hrest
            obtain ⟨rfl, rfl⟩ := executes_pure.mp htail
            refine .of_transfer hsize hfit hactual rfl ?_
            intro event hmem
            rw [List.append_nil, List.mem_singleton] at hmem
            rw [hmem]
            rfl
          next hpipe =>
            split at hrest
            next htimeout =>
              obtain ⟨rfl, rfl⟩ := executes_pure.mp hrest
              exact .of_transfer hsize hfit hactual rfl (by simp)
            next htimeout =>
              obtain ⟨rfl, rfl⟩ := executes_pure.mp hrest
              exact .of_transfer hsize hfit hactual rfl (by simp)
      next hdone =>
        obtain ⟨rfl, rfl⟩ := executes_pure.mp hexec
        constructor
        · rfl
        · exact hreceived
        · rfl
        · exact (List.append_nil _).symm
        · exact hactual
        · simp

theorem sleepBeforeRetry_pauses {attempt : Nat} {result : Unit}
    (hmore : attempt < usbRetryCount - 1) (h : (sleepBeforeRetry attempt).Executes trace result) :
    deliveredBytes trace = [] ∧ ∃ event, trace = [event] ∧ LibusbEvent.isPause event = true := by
  rw [sleepBeforeRetry, if_pos hmore] at h
  obtain rfl := executes_libusb.mp h
  exact ⟨rfl, _, rfl, rfl⟩

/-- A call that succeeds reports what the last attempt has collected. -/
theorem receiveAttempts_receives {left : Nat} {actualLength count : Int} {data : Bytes}
    (hleft : left ≤ usbRetryCount) (hsize : size ≤ buffer.length)
    (hexec : (usb.receiveAttempts timeout timeoutOverrideMs size required left buffer
      actualLength).Executes trace (true, data, count)) :
    ∃ earlier last, trace = earlier ++ last ∧
      (∀ event ∈ last, LibusbEvent.isPause event = false) ∧
      (∀ event ∈ earlier.getLast?, LibusbEvent.isPause event = true) ∧
      required ≤ (deliveredBytes last).length ∧ (deliveredBytes last).length ≤ size ∧
      data.take (deliveredBytes last).length = deliveredBytes last ∧
      count = toInt32 (deliveredBytes last).length := by
  induction left generalizing buffer actualLength trace with
  | zero =>
      obtain ⟨-, hresult⟩ := executes_pure.mp hexec
      simp at hresult
  | succ left ih =>
      obtain ⟨first, pass, rest, rfl, hfirst, hrest⟩ := executes_bind.mp hexec
      have hpass := receiveWhile_receives hsize (Nat.zero_le size) rfl hfirst
      have hreceived := hpass.received_eq
      rw [Nat.zero_add] at hreceived
      split at hrest
      next hgivenUp =>
        obtain ⟨-, hresult⟩ := executes_pure.mp hrest
        simp at hresult
      next hgivenUp =>
        split at hrest
        next henough =>
          obtain ⟨rfl, -, hresult⟩ := executes_pure_pair.mp hrest
          obtain ⟨rfl, rfl⟩ := Prod.mk.inj hresult
          refine ⟨[], first, by simp, hpass.no_pause, by simp, ?_, ?_, ?_, ?_⟩
          · rw [← hreceived]
            exact henough.1
          · rw [← hreceived]
            exact henough.2
          · rw [← hreceived]
            exact hpass.take_eq
          · rw [← hreceived]
            exact hpass.actual_eq
        next henough =>
          -- What this attempt has stored is not part of the result.
          obtain ⟨pause, _, tail, rfl, hpause, htail⟩ := executes_bind.mp hrest
          have hbuffer : size ≤ pass.buffer.length := by
            rw [hpass.length_eq]
            exact hsize
          obtain ⟨earlier, last, rfl, hlast, hearlier, hresult⟩ := ih (by omega) hbuffer htail
          refine ⟨first ++ pause ++ earlier, last, by simp, hlast, ?_, hresult⟩
          intro event hmem
          by_cases hnil : earlier = []
          · subst hnil
            rw [List.append_nil] at hmem
            cases left with
            | zero => simp [UsbConnection.receiveAttempts] at htail
            | succ left =>
                have hmore : usbRetryCount - (left + 1 + 1) < usbRetryCount - 1 := by
                  unfold usbRetryCount at hleft ⊢
                  omega
                obtain ⟨-, last', rfl, hlast'⟩ := sleepBeforeRetry_pauses hmore hpause
                rw [List.getLast?_concat, Option.mem_some_iff] at hmem
                exact hmem ▸ hlast'
          · rw [List.getLast?_append_of_ne_nil _ hnil] at hmem
            exact hearlier event hmem

end Receiving

/-- A call that succeeds returns what the device delivered exactly if no attempt
that was given up had received anything and the count fits into its type. -/
theorem receivePacket_complete_iff {usb : UsbConnection} {buffer data : Bytes} {isControl : Bool}
    {minSize : Nat} {timeoutOverrideMs count : Int} {trace : LibusbTrace}
    (hexec : (usb.receivePacket buffer isControl minSize timeoutOverrideMs).Executes trace
      (true, data, count)) :
    (requiredMin buffer.length minSize ≤ count ∧ count ≤ buffer.length ∧
        data.take count.toNat = deliveredBytes trace) ↔
      deliveredBytes (givenUpAttempts trace) = [] ∧ (deliveredBytes trace).length < 2 ^ 31 := by
  unfold UsbConnection.receivePacket at hexec
  obtain ⟨earlier, last, rfl, hlast, hearlier, hrequired, hsize, htake, hreported⟩ :=
    receiveAttempts_receives (Nat.le_refl _) (Nat.le_refl _) hexec
  rw [hreported, givenUpAttempts_append hlast hearlier, deliveredBytes_append]
  constructor
  · rintro ⟨hmin, -, heq⟩
    have hsmall := toInt32_lt (deliveredBytes last).length
    have hlength : (data.take (toInt32 (deliveredBytes last).length).toNat).length =
        (deliveredBytes earlier).length + (deliveredBytes last).length := by
      rw [heq, List.length_append]
    have hbound := List.length_take_le (toInt32 (deliveredBytes last).length).toNat data
    have hcount : (deliveredBytes last).length < 2 ^ 31 := by omega
    rw [toInt32_eq hcount, Int.toNat_natCast] at hbound hlength
    have hnone : (deliveredBytes earlier).length = 0 := by omega
    refine ⟨List.eq_nil_of_length_eq_zero hnone, ?_⟩
    rw [List.length_append]
    omega
  · rintro ⟨hearlier, hcount⟩
    rw [hearlier, List.nil_append] at hcount ⊢
    rw [toInt32_eq hcount, Int.toNat_natCast]
    refine ⟨?_, ?_, htake⟩
    · exact_mod_cast hrequired
    · exact_mod_cast hsize

/-- The packet `2 3` after an attempt that was given up when `1` had arrived. -/
def retriedReceive : LibusbTrace :=
  [⟨.bulkIn none 0x81 2 120000, ⟨-1, [1], by decide⟩⟩, ⟨.sleepFor 100, ()⟩,
    ⟨.bulkIn none 0x81 2 120000, ⟨0, [2, 3], by decide⟩⟩]

theorem executes_retriedReceive :
    (UsbConnection.receivePacket {} [0, 0] false 0 0).Executes retriedReceive (true, [2, 3], 2) := by
  refine executes_bind.mpr ⟨[_], ⟨[1, 0], 1, 1, false⟩, [_, _], rfl, ?_, ?_⟩
  · rw [UsbConnection.receiveWhile]
    exact executes_bind.mpr ⟨[_], _, [], rfl, executes_libusb.mpr rfl, executes_pure.mpr ⟨rfl, rfl⟩⟩
  · refine executes_bind.mpr ⟨[_], (), [_], rfl, executes_libusb.mpr rfl, ?_⟩
    refine executes_bind.mpr ⟨[_], ⟨[2, 3], 2, 2, false⟩, [], rfl, ?_, executes_pure.mpr ⟨rfl, rfl⟩⟩
    rw [UsbConnection.receiveWhile]
    exact executes_bind.mpr ⟨[_], _, [], rfl, executes_libusb.mpr rfl, executes_pure.mpr ⟨rfl, rfl⟩⟩

/-- The call succeeds, and a byte that was delivered is not in its result. -/
theorem retry_loses_byte :
    (UsbConnection.receivePacket {} [0, 0] false 0 0).Executes retriedReceive (true, [2, 3], 2) ∧
      deliveredBytes retriedReceive = [1, 2, 3] ∧
      [2, 3].take 2 ≠ deliveredBytes retriedReceive :=
  ⟨executes_retriedReceive, by decide, by decide⟩

theorem receivePacket_complete_iff_retried :
    deliveredBytes (givenUpAttempts retriedReceive) ≠ [] := by
  intro hnone
  have hcount : (deliveredBytes retriedReceive).length < 2 ^ 31 := by
    change 3 < 2 ^ 31
    omega
  have hcomplete := (receivePacket_complete_iff executes_retriedReceive).mpr ⟨hnone, hcount⟩
  exact absurd hcomplete.2.2 (by decide)

end Odin4
