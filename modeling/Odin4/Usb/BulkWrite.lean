import Odin4.Interaction.LabelledSteps
import Odin4.Usb.Libusb

/-!
# Writing everything

A write goes out in requests of bounded size. After a transfer that failed or
moved nothing it is resumed behind the bytes that the device took, for a
bounded number of attempts. The bound on the size of a request drops to 16 KiB
once an endpoint stalled or timed out, and stays there.
-/

namespace Odin4

open Interaction Program

/-! ## The transfers of an execution -/

/-- One transfer to the device. -/
structure OutRecord where
  request : Bytes
  err : Int
  actualLength : Nat
deriving DecidableEq, Repr

def OutTransfer.record {request : Bytes} (transfer : OutTransfer request) : OutRecord where
  request
  err := transfer.err
  actualLength := transfer.actualLength

namespace OutRecord

/-- The bytes that the device took. -/
def taken (record : OutRecord) : Bytes := record.request.take record.actualLength

/-- The transfer failed or made no progress. -/
def isSetback (record : OutRecord) : Bool := record.err != 0 || record.actualLength == 0

/-- The endpoint stalled or timed out. -/
def isStall (record : OutRecord) : Bool :=
  record.err == libusbErrorPipe || record.err == libusbErrorTimeout

end OutRecord

def LibusbEvent.outRecord? (event : LibusbEvent) : Option OutRecord :=
  match event with
  | ⟨.bulkOut .., reply⟩ => some reply.record
  | _ => none

/-- The transfers to the device, in order. -/
def outTransfers (trace : LibusbTrace) : List OutRecord := trace.filterMap LibusbEvent.outRecord?

def takenBytes (records : List OutRecord) : Bytes := records.flatMap OutRecord.taken

def setbacks (records : List OutRecord) : Nat := records.countP OutRecord.isSetback

/-- The size of the largest request allowed after some transfers. -/
def maxChunkAfter (maxChunkBytes : Nat) (records : List OutRecord) : Nat :=
  records.foldl (fun bound record => if record.isStall then 0x4000 else bound) maxChunkBytes

@[simp] theorem outTransfers_append (first second : LibusbTrace) :
    outTransfers (first ++ second) = outTransfers first ++ outTransfers second :=
  List.filterMap_append

@[simp] theorem outTransfers_bulkOut (handle : Option DeviceHandle) (endpoint : UInt8)
    (request : Bytes) (timeoutMs : Nat) (reply : OutTransfer request) :
    outTransfers [⟨.bulkOut handle endpoint request timeoutMs, reply⟩] = [reply.record] := rfl

@[simp] theorem takenBytes_cons (record : OutRecord) (rest : List OutRecord) :
    takenBytes (record :: rest) = record.taken ++ takenBytes rest := rfl

theorem setbacks_cons (record : OutRecord) (rest : List OutRecord) :
    setbacks (record :: rest) = setbacks rest + if record.isSetback then 1 else 0 :=
  List.countP_cons

theorem maxChunkAfter_cons (bound : Nat) (record : OutRecord) (rest : List OutRecord) :
    maxChunkAfter bound (record :: rest) =
      maxChunkAfter (if record.isStall then 0x4000 else bound) rest := rfl

theorem OutRecord.length_taken {record : OutRecord}
    (h : record.actualLength ≤ record.request.length) :
    record.taken.length = record.actualLength := by
  rw [taken, List.length_take]
  exact Nat.min_eq_left h

theorem outTransfers_sleepBeforeRetry {attempt : Nat} {trace : LibusbTrace} {result : Unit}
    (h : (sleepBeforeRetry attempt).Executes trace result) : outTransfers trace = [] := by
  unfold sleepBeforeRetry at h
  split at h
  · obtain rfl := executes_libusb.mp h
    rfl
  · obtain ⟨rfl, -⟩ := executes_pure.mp h
    rfl

/-! ## The writer -/

namespace UsbConnection

variable (usb : UsbConnection)

/-- How far the inner loop of the writer came. -/
structure WritePass where
  offset : Nat
  maxChunkBytes : Nat
  deviceGone : Bool
deriving DecidableEq, Repr

/-- Transfers until everything is written, or one fails or moves nothing. -/
def writeWhile (data : Bytes) (timeoutMs maxChunkBytes offset : Nat) : Libusb WritePass :=
  if _hmore : offset < data.length then do
    let toSend := min (data.length - offset) maxChunkBytes
    let request := (data.drop offset).take (clampSizeToInt toSend)
    let transfer ← libusb (.bulkOut usb.handle usb.endpointOut request timeoutMs)
    let offset' := offset + transfer.actualLength
    if transfer.err ≠ 0 then
      if transfer.err = libusbErrorNoDevice then return ⟨offset', maxChunkBytes, true⟩
      -- From a stall or a timeout on, requests are smaller.
      if transfer.err = libusbErrorPipe then
        let _ ← libusb (.clearHalt usb.handle usb.endpointOut)
        return ⟨offset', 0x4000, false⟩
      if transfer.err = libusbErrorTimeout then return ⟨offset', 0x4000, false⟩
      return ⟨offset', maxChunkBytes, false⟩
    else if _hnone : transfer.actualLength = 0 then
      return ⟨offset', maxChunkBytes, false⟩
    else
      writeWhile data timeoutMs maxChunkBytes offset'
  else
    return ⟨offset, maxChunkBytes, false⟩
termination_by data.length - offset

def sendZlp (timeoutMs : Nat) : Libusb Bool := do
  let transfer ← libusb (.bulkOut usb.handle usb.endpointOut [] timeoutMs)
  return transfer.err == 0

/-- Whether a transfer of this size is closed by a packet of length zero. -/
def needsZlp (size : Nat) : Bool :=
  odinSupportsZlp && usb.endpointOutMaxPacket != 0 && size % usb.endpointOutMaxPacket.toNat == 0

/-- The attempts of the writer, the last `left` of which remain. -/
def writeAttempts (data : Bytes) (timeoutMs : Nat) :
    (left : Nat) → UsbConnection → Nat → Libusb (Bool × UsbConnection)
  | 0, usb, _ => return (false, usb)
  | left + 1, usb, offset => do
      let pass ← usb.writeWhile data timeoutMs usb.maxChunkBytes offset
      let usb := { usb with maxChunkBytes := pass.maxChunkBytes }
      if pass.deviceGone then return (false, usb)
      if pass.offset = data.length then
        if usb.needsZlp data.length then
          let _ ← usb.sendZlp timeoutMs
          return (true, usb)
        return (true, usb)
      sleepBeforeRetry (usbRetryCount - (left + 1))
      writeAttempts data timeoutMs left usb pass.offset

def bulkWriteAll (data : Bytes) (timeoutMs : Nat) : Libusb (Bool × UsbConnection) :=
  writeAttempts data timeoutMs usbRetryCount usb 0

end UsbConnection

/-! ## What one transfer does to a write -/

structure WriteState where
  offset : Nat
  maxChunkBytes : Nat
  setbacks : Nat

namespace WriteState

variable (data : Bytes) (state : WriteState)

def request : Bytes :=
  (data.drop state.offset).take (clampSizeToInt (min (data.length - state.offset) state.maxChunkBytes))

def afterTransfer (record : OutRecord) : WriteState where
  offset := state.offset + record.actualLength
  maxChunkBytes := if record.isStall then 0x4000 else state.maxChunkBytes
  setbacks := if record.isSetback then state.setbacks + 1 else state.setbacks

/-- The next transfer of an unfinished write. -/
structure Transfers (state : WriteState) (record : OutRecord) (next : WriteState) : Prop where
  more : state.offset < data.length
  request_eq : record.request = state.request data
  le_length : record.actualLength ≤ record.request.length
  next_eq : next = state.afterTransfer record

/-- What holds of a write whenever it may go on. -/
structure Sound (state : WriteState) : Prop where
  offset_le : state.offset ≤ data.length
  maxChunk : state.maxChunkBytes = 1048576 ∨ state.maxChunkBytes = 0x4000

variable {data} {state} {next : WriteState} {record : OutRecord} {records : List OutRecord}

variable (data) (state) in
theorem length_request_le :
    (state.request data).length ≤ min state.maxChunkBytes (data.length - state.offset) := by
  have hclamp := clampSizeToInt_le (min (data.length - state.offset) state.maxChunkBytes)
  rw [request, List.length_take, List.length_drop]
  omega

theorem request_ne_nil (hmore : state.offset < data.length) (hchunk : 0 < state.maxChunkBytes) :
    state.request data ≠ [] := by
  have hpos : 0 < clampSizeToInt (min (data.length - state.offset) state.maxChunkBytes) :=
    clampSizeToInt_pos (by omega)
  apply List.ne_nil_of_length_pos
  rw [request, List.length_take, List.length_drop]
  omega

theorem Transfers.offset_le (h : Transfers data state record next) : next.offset ≤ data.length := by
  have hmore := h.more
  have hactual := h.le_length
  have hrequest := length_request_le data state
  rw [h.request_eq] at hactual
  rw [h.next_eq]
  change state.offset + record.actualLength ≤ data.length
  omega

theorem Transfers.sound (h : Transfers data state record next) (hstate : state.Sound data) :
    next.Sound data := by
  refine ⟨h.offset_le, ?_⟩
  rw [h.next_eq]
  change (if record.isStall then 0x4000 else state.maxChunkBytes) = _ ∨
    (if record.isStall then 0x4000 else state.maxChunkBytes) = _
  split
  · exact .inr rfl
  · exact hstate.maxChunk

end WriteState

/-! ## What a write does as a whole -/

section Writing

variable {usb usb' : UsbConnection} {data : Bytes} {timeoutMs : Nat} {trace : LibusbTrace}

/-- A transfer after which the inner loop is left. -/
theorem steps_of_transfer {state : WriteState} {record : OutRecord} {pass : UsbConnection.WritePass}
    (hstep : WriteState.Transfers data state record (state.afterTransfer record))
    (hoffset : pass.offset = state.offset + record.actualLength)
    (hchunk : pass.maxChunkBytes = if record.isStall then 0x4000 else state.maxChunkBytes) :
    ∃ final, Steps (WriteState.Transfers data) state [record] final ∧ final.offset = pass.offset ∧
      final.maxChunkBytes = pass.maxChunkBytes ∧ final.setbacks ≤ state.setbacks + 1 := by
  refine ⟨_, Steps.single hstep, hoffset.symm, hchunk.symm, ?_⟩
  change (if record.isSetback then state.setbacks + 1 else state.setbacks) ≤ state.setbacks + 1
  split
  · exact Nat.le_refl _
  · exact Nat.le_succ _

/-- The inner loop makes transfers, at most one of which sets it back. -/
theorem writeWhile_steps {maxChunkBytes offset count : Nat} {pass : UsbConnection.WritePass}
    (hexec : (usb.writeWhile data timeoutMs maxChunkBytes offset).Executes trace pass) :
    ∃ final, Steps (WriteState.Transfers data) ⟨offset, maxChunkBytes, count⟩ (outTransfers trace)
        final ∧
      final.offset = pass.offset ∧ final.maxChunkBytes = pass.maxChunkBytes ∧
        final.setbacks ≤ count + 1 := by
  induction hleft : data.length - offset using Nat.strong_induction_on generalizing offset trace with
  | _ left ih =>
      rw [UsbConnection.writeWhile] at hexec
      split at hexec
      next hmore =>
        obtain ⟨transfer, rest, rfl, hrest⟩ := executes_libusb_bind.mp hexec
        have hstep : WriteState.Transfers data ⟨offset, maxChunkBytes, count⟩
            transfer.record _ := ⟨hmore, rfl, transfer.le_length, rfl⟩
        rw [outTransfers_append, outTransfers_bulkOut]
        split at hrest
        next herr =>
          -- A failed transfer leaves the loop.
          split at hrest
          next hgone =>
            obtain ⟨rfl, rfl⟩ := executes_pure.mp hrest
            apply steps_of_transfer hstep rfl
            simp [OutTransfer.record, OutRecord.isStall, hgone, libusbErrorNoDevice,
              libusbErrorPipe, libusbErrorTimeout]
          next hgone =>
            split at hrest
            next hpipe =>
              obtain ⟨reply, tail, rfl, htail⟩ := executes_libusb_bind.mp hrest
              obtain ⟨rfl, rfl⟩ := executes_pure.mp htail
              apply steps_of_transfer hstep rfl
              simp [OutTransfer.record, OutRecord.isStall, hpipe]
            next hpipe =>
              split at hrest
              next htimeout =>
                obtain ⟨rfl, rfl⟩ := executes_pure.mp hrest
                apply steps_of_transfer hstep rfl
                simp [OutTransfer.record, OutRecord.isStall, htimeout]
              next htimeout =>
                obtain ⟨rfl, rfl⟩ := executes_pure.mp hrest
                apply steps_of_transfer hstep rfl
                simp [OutTransfer.record, OutRecord.isStall, hpipe, htimeout]
        next herr =>
          rw [not_not] at herr
          split at hrest
          next hnone =>
            obtain ⟨rfl, rfl⟩ := executes_pure.mp hrest
            apply steps_of_transfer hstep rfl
            simp [OutTransfer.record, OutRecord.isStall, herr, libusbErrorPipe, libusbErrorTimeout]
          next hnone =>
            have hnext : WriteState.afterTransfer ⟨offset, maxChunkBytes, count⟩
                transfer.record = ⟨offset + transfer.actualLength, maxChunkBytes, count⟩ := by
              simp [WriteState.afterTransfer, OutTransfer.record, OutRecord.isStall,
                OutRecord.isSetback, herr, hnone, libusbErrorPipe, libusbErrorTimeout]
            obtain ⟨final, hsteps, hfinal⟩ := ih _ (by omega) hrest rfl
            exact ⟨final, (Steps.single (hnext ▸ hstep)).append hsteps, hfinal⟩
      next hdone =>
        obtain ⟨rfl, rfl⟩ := executes_pure.mp hexec
        exact ⟨⟨offset, maxChunkBytes, count⟩, rfl, rfl, rfl, Nat.le_succ count⟩

theorem sendZlp_transfers {ok : Bool} (hexec : (usb.sendZlp timeoutMs).Executes trace ok) :
    (outTransfers trace).map OutRecord.request = [[]] := by
  obtain ⟨transfer, rest, rfl, hrest⟩ := executes_libusb_bind.mp hexec
  obtain ⟨rfl, -⟩ := executes_pure.mp hrest
  rfl

/-- The attempts send data from `offset` on, each of them set back at most once,
and close with a packet of length zero where one is due. -/
theorem writeAttempts_steps (count : Nat) {left offset : Nat} {ok : Bool}
    (hexec : (UsbConnection.writeAttempts data timeoutMs left usb offset).Executes trace (ok, usb')) :
    ∃ sending closing final, outTransfers trace = sending ++ closing ∧
      Steps (WriteState.Transfers data) ⟨offset, usb.maxChunkBytes, count⟩ sending final ∧
      usb' = { usb with maxChunkBytes := final.maxChunkBytes } ∧ final.setbacks ≤ count + left ∧
      (ok = true → final.offset = data.length) ∧
      closing.map OutRecord.request = if ok && usb.needsZlp data.length then [[]] else [] := by
  induction left generalizing usb offset count trace with
  | zero =>
      obtain ⟨rfl, rfl, rfl⟩ := executes_pure_pair.mp hexec
      exact ⟨[], [], _, rfl, Steps.refl _, rfl, Nat.le_refl _, by simp, by simp⟩
  | succ left ih =>
      obtain ⟨first, pass, rest, rfl, hfirst, hrest⟩ := executes_bind.mp hexec
      obtain ⟨final, hsteps, hoffset, hchunk, hcount⟩ := writeWhile_steps hfirst
      rw [outTransfers_append]
      split at hrest
      next hgone =>
        obtain ⟨rfl, rfl, rfl⟩ := executes_pure_pair.mp hrest
        refine ⟨_, [], final, rfl, hsteps, by rw [hchunk], by omega, by simp, by simp⟩
      next hgone =>
        split at hrest
        next hall =>
          dsimp only at hrest
          split at hrest
          next hzlp =>
            obtain ⟨second, reply, tail, rfl, hsecond, htail⟩ := executes_bind.mp hrest
            obtain ⟨rfl, rfl, rfl⟩ := executes_pure_pair.mp htail
            refine ⟨_, _, final, rfl, hsteps, by rw [hchunk], by omega, fun _ => by omega, ?_⟩
            have hzlp : usb.needsZlp data.length = true := hzlp
            rw [List.append_nil, sendZlp_transfers hsecond, hzlp]
            rfl
          next hzlp =>
            obtain ⟨rfl, rfl, rfl⟩ := executes_pure_pair.mp hrest
            refine ⟨_, [], final, rfl, hsteps, by rw [hchunk], by omega, fun _ => by omega, ?_⟩
            have hzlp : usb.needsZlp data.length = false := Bool.eq_false_iff.mpr hzlp
            rw [hzlp]
            rfl
        next hall =>
          -- The next attempt goes on where this one stopped.
          obtain ⟨pause, _, tail, rfl, hpause, htail⟩ := executes_bind.mp hrest
          obtain ⟨sending, closing, last, htransfers, hmore, husb, hlast, hok, hclosing⟩ :=
            ih final.setbacks htail
          rw [outTransfers_append, outTransfers_sleepBeforeRetry hpause, List.nil_append, htransfers]
          have hstart : final = ⟨pass.offset, pass.maxChunkBytes, final.setbacks⟩ := by
            rw [← hoffset, ← hchunk]
          refine ⟨_ ++ sending, closing, last, (List.append_assoc ..).symm, hsteps.append ?_, husb,
            by omega, hok, hclosing⟩
          rw [hstart]
          exact hmore

end Writing

/-! ## What a run of transfers has delivered -/

section Runs

variable {data : Bytes} {s t : WriteState} {records : List OutRecord}

/-- The state after a run, from its transfers. -/
theorem state_of_steps (h : Steps (WriteState.Transfers data) s records t) :
    t = ⟨s.offset + (takenBytes records).length, maxChunkAfter s.maxChunkBytes records,
      s.setbacks + setbacks records⟩ := by
  induction records generalizing s with
  | nil => exact h
  | cons record rest ih =>
      obtain ⟨middle, hstep, hrest⟩ := h
      rw [ih hrest, hstep.next_eq, takenBytes_cons, List.length_append,
        OutRecord.length_taken hstep.le_length, setbacks_cons, WriteState.mk.injEq]
      refine ⟨Nat.add_assoc .., rfl, ?_⟩
      simp only [WriteState.afterTransfer]
      split
      · omega
      · rfl

/-- In front of each transfer, and behind the last, a write is sound. -/
theorem sound_of_steps (h : Steps (WriteState.Transfers data) s records t) (hs : s.Sound data) :
    t.Sound data :=
  h.invariant (fun _ _ _ hstep => hstep.sound) hs

/-- What was taken is the data between the two offsets. -/
theorem take_append_taken (h : Steps (WriteState.Transfers data) s records t) :
    data.take s.offset ++ takenBytes records = data.take t.offset := by
  induction records generalizing s with
  | nil =>
      obtain rfl := h
      exact List.append_nil _
  | cons record rest ih =>
      obtain ⟨middle, hstep, hrest⟩ := h
      have hlength := hstep.le_length
      have hbound : record.actualLength ≤
          clampSizeToInt (min (data.length - s.offset) s.maxChunkBytes) := by
        rw [hstep.request_eq, WriteState.request, List.length_take] at hlength
        omega
      have htaken : record.taken = (data.drop s.offset).take record.actualLength := by
        rw [OutRecord.taken, hstep.request_eq, WriteState.request, List.take_take,
          Nat.min_eq_left hbound]
      have hmiddle : middle.offset = s.offset + record.actualLength := by
        rw [hstep.next_eq]
        rfl
      rw [← ih hrest, hmiddle, List.take_add, takenBytes_cons, htaken, List.append_assoc]

theorem length_le_of_steps (h : Steps (WriteState.Transfers data) s records t) :
    records.length ≤ (takenBytes records).length + setbacks records := by
  induction records generalizing s with
  | nil => exact Nat.zero_le _
  | cons record rest ih =>
      obtain ⟨middle, hstep, hrest⟩ := h
      have hcount := ih hrest
      rw [takenBytes_cons, List.length_append, OutRecord.length_taken hstep.le_length,
        setbacks_cons, List.length_cons]
      by_cases hprogress : record.actualLength = 0
      · have hsetback : record.isSetback = true := by simp [OutRecord.isSetback, hprogress]
        rw [if_pos hsetback]
        omega
      · omega

end Runs

section Chunks

variable {bound : Nat} {first second records : List OutRecord}

theorem maxChunkAfter_append :
    maxChunkAfter bound (first ++ second) = maxChunkAfter (maxChunkAfter bound first) second :=
  List.foldl_append

theorem maxChunkAfter_le (h : bound = 1048576 ∨ bound = 0x4000) :
    maxChunkAfter bound records ≤ bound := by
  induction records generalizing bound with
  | nil => exact Nat.le_refl _
  | cons record rest ih =>
      rw [maxChunkAfter_cons]
      split
      · exact (ih (.inr rfl)).trans (by omega)
      · exact ih h

/-- Whatever has been sent, the size of a request is one of the two. -/
theorem maxChunkAfter_cases (h : bound = 1048576 ∨ bound = 0x4000) :
    maxChunkAfter bound records = 1048576 ∨ maxChunkAfter bound records = 0x4000 := by
  induction records generalizing bound with
  | nil => exact h
  | cons record rest ih =>
      rw [maxChunkAfter_cons]
      split
      · exact ih (.inr rfl)
      · exact ih h

end Chunks

/-- A successful write delivers each byte once and in order, and any other
write delivers an initial part. Requests are bounded by what remains and by a
size that never grows, at most five transfers fail or move nothing, and a
packet of length zero is sent exactly where one is due. -/
theorem bulkWriteAll_delivers {usb usb' : UsbConnection} {data : Bytes} {timeoutMs : Nat}
    {trace : LibusbTrace} {ok : Bool}
    (hchunk : usb.maxChunkBytes = 1048576 ∨ usb.maxChunkBytes = 0x4000)
    (hexec : (usb.bulkWriteAll data timeoutMs).Executes trace (ok, usb')) :
    ∃ sending closing, outTransfers trace = sending ++ closing ∧
      takenBytes sending <+: data ∧ (ok = true → takenBytes sending = data) ∧
      (∀ before record after, sending = before ++ record :: after →
        record.request ≠ [] ∧
          record.request.length ≤ min (maxChunkAfter usb.maxChunkBytes before)
            (data.length - (takenBytes before).length)) ∧
      setbacks sending ≤ 5 ∧ sending.length ≤ data.length + 5 ∧
      (∀ before between after, sending = before ++ between ++ after →
        maxChunkAfter usb.maxChunkBytes (before ++ between) ≤ maxChunkAfter usb.maxChunkBytes before ∧
          (maxChunkAfter usb.maxChunkBytes before = 1048576 ∨
            maxChunkAfter usb.maxChunkBytes before = 0x4000)) ∧
      usb' = { usb with maxChunkBytes := maxChunkAfter usb.maxChunkBytes sending } ∧
      closing.map OutRecord.request =
        if ok = true ∧ usb.endpointOutMaxPacket ≠ 0 ∧
            data.length % usb.endpointOutMaxPacket.toNat = 0 then [[]] else [] := by
  obtain ⟨sending, closing, final, htransfers, hsteps, husb, hcount, hok, hclosing⟩ :=
    writeAttempts_steps 0 hexec
  have hfinal := state_of_steps hsteps
  have htaken := take_append_taken hsteps
  have hlength := length_le_of_steps hsteps
  rw [List.take_zero, List.nil_append] at htaken
  have hstart : WriteState.Sound data ⟨0, usb.maxChunkBytes, 0⟩ := ⟨Nat.zero_le _, hchunk⟩
  have hle : (takenBytes sending).length ≤ data.length := by
    have hend := (sound_of_steps hsteps hstart).offset_le
    rw [hfinal] at hend
    simpa using hend
  have hsetbacks : setbacks sending ≤ 5 := by
    rw [hfinal] at hcount
    simpa [usbRetryCount] using hcount
  refine ⟨sending, closing, htransfers, ?_, ?_, ?_, hsetbacks, by omega, ?_, ?_, ?_⟩
  · rw [htaken]
    exact List.take_prefix _ _
  · intro hsuccess
    rw [htaken, hok hsuccess, List.take_length]
  -- Each transfer is the request of the state that the transfers before it lead to.
  · intro before record after hsplit
    rw [hsplit] at hsteps
    obtain ⟨state, hbefore, next, hstep, -⟩ := hsteps.of_append
    have hstate := state_of_steps hbefore
    have hmore := hstep.more
    have hbound := WriteState.length_request_le data state
    rw [hstep.request_eq]
    rw [hstate] at hmore hbound ⊢
    have hpositive : 0 < maxChunkAfter usb.maxChunkBytes before := by
      rcases maxChunkAfter_cases hchunk with h | h
      · exact h ▸ by decide
      · exact h ▸ by decide
    refine ⟨WriteState.request_ne_nil hmore hpositive, ?_⟩
    simpa using hbound
  · intro before between after hsplit
    have hmem : maxChunkAfter usb.maxChunkBytes before = 1048576 ∨ _ :=
      maxChunkAfter_cases hchunk
    rw [maxChunkAfter_append]
    exact ⟨maxChunkAfter_le hmem, hmem⟩
  · rw [husb, hfinal]
  · rw [hclosing]
    simp [UsbConnection.needsZlp, odinSupportsZlp]

/-- Two bytes, of which a first transfer that timed out moved one. -/
def resumedWrite : LibusbTrace :=
  [⟨.bulkOut none 0x01 [7, 8] 1000, ⟨libusbErrorTimeout, 1, by decide⟩⟩, ⟨.sleepFor 100, ()⟩,
    ⟨.bulkOut none 0x01 [8] 1000, ⟨0, 1, by decide⟩⟩]

theorem executes_resumedWrite :
    (UsbConnection.bulkWriteAll {} [7, 8] 1000).Executes resumedWrite
      (true, { maxChunkBytes := 0x4000 }) := by
  refine executes_bind.mpr ⟨[_], ⟨1, 0x4000, false⟩, [_, _], rfl, ?_, ?_⟩
  · rw [UsbConnection.writeWhile]
    exact executes_bind.mpr ⟨[_], _, [], rfl, executes_libusb.mpr rfl, executes_pure.mpr ⟨rfl, rfl⟩⟩
  · refine executes_bind.mpr ⟨[_], (), [_], rfl, executes_libusb.mpr rfl, ?_⟩
    refine executes_bind.mpr ⟨[_], ⟨2, 0x4000, false⟩, [], rfl, ?_, executes_pure.mpr ⟨rfl, rfl⟩⟩
    rw [UsbConnection.writeWhile]
    refine executes_bind.mpr ⟨[_], _, [], rfl, executes_libusb.mpr rfl, ?_⟩
    change (UsbConnection.writeWhile _ _ _ _ 2).Executes _ _
    rw [UsbConnection.writeWhile]
    exact executes_pure.mpr ⟨rfl, rfl⟩

theorem bulkWriteAll_delivers_resumed :
    ∃ sending closing, outTransfers resumedWrite = sending ++ closing ∧ takenBytes sending = [7, 8] := by
  obtain ⟨sending, closing, hsplit, -, hall, -⟩ :=
    bulkWriteAll_delivers (.inl rfl) executes_resumedWrite
  exact ⟨sending, closing, hsplit, hall rfl⟩

end Odin4
