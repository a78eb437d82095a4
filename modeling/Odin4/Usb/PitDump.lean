import Odin4.Interaction.FailStop
import Odin4.Usb.Exchange

/-!
# Reading the PIT of a legacy device

The table is read in blocks, each of which is requested by its number. What is
assembled is what the blocks carried, cut to the size that the device announced.
-/

namespace Odin4

open Interaction Program

/-! ## Blocks of equal length -/

/-- Elements of blocks that all have one length, by number and position. -/
theorem getElem?_flatten_of_length {α : Type} {size : Nat} (hsize : 0 < size)
    {blocks : List (List α)} (h : ∀ block ∈ blocks, block.length = size) (k : Nat) :
    blocks.flatten[k]? = (blocks[k / size]?).bind fun block => block[k % size]? := by
  induction blocks generalizing k with
  | nil => simp
  | cons block rest ih =>
      obtain ⟨hblock, hrest⟩ := List.forall_mem_cons.mp h
      rw [List.flatten_cons]
      by_cases hk : k < size
      · rw [List.getElem?_append_left (by omega), Nat.div_eq_of_lt hk, Nat.mod_eq_of_lt hk]
        rfl
      · obtain ⟨j, rfl⟩ : ∃ j, k = j + size := ⟨k - size, by omega⟩
        rw [List.getElem?_append_right (by omega), hblock, Nat.add_sub_cancel, ih hrest,
          Nat.add_div_right j hsize, Nat.add_mod_right, List.getElem?_cons_succ]

theorem length_flatten_of_length {α : Type} {size : Nat} {blocks : List (List α)}
    (h : ∀ block ∈ blocks, block.length = size) :
    blocks.flatten.length = blocks.length * size := by
  induction blocks with
  | nil => simp
  | cons block rest ih =>
      obtain ⟨hblock, hrest⟩ := List.forall_mem_cons.mp h
      rw [List.flatten_cons, List.length_append, hblock, ih hrest, List.length_cons, Nat.add_mul,
        Nat.one_mul, Nat.add_comm]

/-- A buffer into which as much of a block is copied as there is room for. -/
def copyBlock (pitOut data : Bytes) (off : Nat) : Bytes :=
  pitOut.take off ++ data.take (min data.length (pitOut.length - off)) ++
    pitOut.drop (off + min data.length (pitOut.length - off))

theorem length_copyBlock (pitOut data : Bytes) (off : Nat) :
    (copyBlock pitOut data off).length = pitOut.length := by
  simp only [copyBlock, List.length_append, List.length_take, List.length_drop]
  omega

/-- The rest of the buffer, filled from this block and those behind it. -/
theorem copyBlock_take (pitOut data rest : Bytes) (off : Nat) :
    (copyBlock pitOut data off).take (off + data.length) ++
        rest.take (pitOut.length - (off + data.length)) =
      pitOut.take off ++ (data ++ rest).take (pitOut.length - off) := by
  rw [List.take_append]
  by_cases hroom : off + data.length ≤ pitOut.length
  · have hcopy : min data.length (pitOut.length - off) = data.length := by omega
    have hfront : (pitOut.take off ++ data).length = off + data.length := by
      rw [List.length_append, List.length_take]
      omega
    rw [copyBlock, hcopy, List.take_length, List.take_left' hfront,
      List.take_of_length_le (by omega : data.length ≤ pitOut.length - off), List.append_assoc,
      Nat.sub_sub]
  · have hcopy : min data.length (pitOut.length - off) = pitOut.length - off := by omega
    have hdrop : pitOut.drop (off + (pitOut.length - off)) = [] :=
      List.drop_eq_nil_of_le (by omega)
    have hnone : pitOut.length - (off + data.length) = 0 := by omega
    have hlength := length_copyBlock pitOut data off
    rw [List.take_of_length_le (by omega), hnone, copyBlock, hcopy, hdrop,
      show pitOut.length - off - data.length = 0 by omega]
    simp

/-! ## Commands that are answered -/

/-- A reply of eight bytes that reports no failure. -/
structure CommandReply where
  bytes : Bytes
  length_eq : bytes.length = 8
  passed : odinFailCheck bytes false = true

def commandEvents (subcmd : UInt32) (payload : Bytes) (reply : CommandReply) : UsbTrace :=
  [⟨.bulkWriteAll (.odin 0x65 subcmd payload) usbTimeoutControl, true⟩,
    ⟨.bulkReadOnce 8 5000, some ⟨reply.bytes, Nat.le_of_eq reply.length_eq⟩⟩]

/-- A block with the reply to its request. -/
structure PitBlock where
  reply : CommandReply
  data : Bytes
  full : data.length = pitBlockSize

/-- The request of block `i`, its reply, and the block. -/
def PitBlock.events (block : PitBlock) (i : Nat) : UsbTrace :=
  commandEvents 0x02 (leBytes 4 i) block.reply ++
    [⟨.receivePacket pitBlockSize false pitBlockSize 5000,
      some ⟨block.data, Nat.le_of_eq block.full.symm, Nat.le_of_eq block.full⟩⟩]

/-- Blocks from number `i` on. -/
def blockEvents : (i : Nat) → List PitBlock → UsbTrace
  | _, [] => []
  | i, block :: rest => block.events i ++ blockEvents (i + 1) rest

theorem odinCommand_answered {subcmd : UInt32} {payload rsp : Bytes} {trace : UsbTrace}
    (h : (odinCommand 0x65 subcmd payload 5000).Executes trace (some rsp))
    (hpassed : odinFailCheck rsp false = true) :
    ∃ reply : CommandReply, reply.bytes = rsp ∧ trace = commandEvents subcmd payload reply := by
  unfold odinCommand at h
  split at h
  next => exact absurd h.2 (by simp)
  obtain ⟨first, written, second, rfl, hfirst, hsecond⟩ := executes_bind.mp h
  rw [executes_bulkWriteAll] at hfirst
  subst hfirst
  cases written with
  | false => exact absurd hsecond.2 (by simp)
  | true =>
      obtain ⟨read, data?, rest, rfl, hread, hrest⟩ := executes_bind.mp hsecond
      obtain ⟨reply, rfl, rfl⟩ := executes_bulkReadOnce.mp hread
      cases reply with
      | none => exact absurd hrest.2 (by simp)
      | some data =>
          simp only [Option.map_some] at hrest
          split at hrest
          next => exact absurd hrest.2 (by simp)
          next hlength =>
            obtain ⟨rfl, hdata⟩ := hrest
            obtain rfl := Option.some.inj hdata
            exact ⟨⟨data.val, not_not.mp hlength, hpassed⟩, rfl, rfl⟩

/-- An operation that succeeded has had the reply to its first command. -/
theorem executes_answered {subcmd : UInt32} {payload : Bytes} {trace : UsbTrace}
    {next : Option Bytes → Usb (Option Bytes)} {f : Bytes → Usb (Option Bytes)} {result : Bytes}
    (h : (odinCommand 0x65 subcmd payload 5000 >>= next).Executes trace (some result))
    (hnone : next none = pure none)
    (hsome : ∀ rsp, next (some rsp) =
      if (!odinFailCheck rsp false) = true then pure none else f rsp) :
    ∃ (reply : CommandReply) (rest : UsbTrace), trace = commandEvents subcmd payload reply ++ rest ∧
      (f reply.bytes).Executes rest (some result) := by
  obtain ⟨first, rsp?, second, rfl, hfirst, hsecond⟩ := executes_bind.mp h
  cases rsp? with
  | none =>
      rw [hnone] at hsecond
      exact absurd hsecond.2 (by simp)
  | some rsp =>
      rw [hsome] at hsecond
      split at hsecond
      next => exact absurd hsecond.2 (by simp)
      next hcheck =>
        obtain ⟨reply, rfl, rfl⟩ := odinCommand_answered hfirst (by simpa using hcheck)
        exact ⟨reply, second, rfl, hsecond⟩

/-! ## A dump that succeeds -/

section Success

variable {trace : UsbTrace} {pitOut result : Bytes}

/-- Blocks that were all served. The output keeps what was in front of the first
and takes the rest from the blocks. -/
theorem odinDumpBlocks_served {count i : Nat}
    (hcover : pitOut.length ≤ (i + count) * pitBlockSize)
    (h : (odinDumpBlocks count i pitOut).Executes trace (some result)) :
    ∃ blocks, blocks.length = count ∧ trace = blockEvents i blocks ∧
      result = pitOut.take (i * pitBlockSize) ++
        (blocks.map PitBlock.data).flatten.take (pitOut.length - i * pitBlockSize) := by
  induction count generalizing i pitOut trace with
  | zero =>
      obtain ⟨rfl, hresult⟩ := h
      obtain rfl := Option.some.inj hresult
      refine ⟨[], rfl, rfl, ?_⟩
      rw [Nat.add_zero] at hcover
      simp [List.take_of_length_le hcover]
  | succ count ih =>
      obtain ⟨reply, rest, rfl, hrest⟩ := executes_answered h rfl fun _ => rfl
      obtain ⟨received, data?, last, rfl, hreceived, hlast⟩ := executes_bind.mp hrest
      obtain ⟨block, rfl, rfl⟩ := executes_receivePacket.mp hreceived
      cases block with
      | none => exact absurd hlast.2 (by simp)
      | some data =>
          simp only [Option.map_some] at hlast
          split at hlast
          next => exact absurd hlast.2 (by simp)
          next hfull =>
            have hfull := not_not.mp hfull
            have hnext : (i + 1) * pitBlockSize = i * pitBlockSize + data.val.length := by
              rw [hfull, Nat.add_mul, Nat.one_mul]
            have hlength := length_copyBlock pitOut data.val (i * pitBlockSize)
            have hcover' : (copyBlock pitOut data.val (i * pitBlockSize)).length ≤
                (i + 1 + count) * pitBlockSize := by
              rwa [hlength, Nat.add_right_comm]
            obtain ⟨blocks, hcount, rfl, rfl⟩ := ih hcover' hlast
            -- The block is copied behind the earlier ones, and the later ones leave it alone.
            refine ⟨⟨reply, data.val, hfull⟩ :: blocks, ?_, ?_, ?_⟩
            · rw [List.length_cons, hcount]
            · simp [blockEvents, PitBlock.events]
            · rw [hnext, hlength]
              exact copyBlock_take pitOut data.val _ _

/-- A dump that succeeded: the size was announced, the blocks were requested one
after the other and served in full, and their bytes were put together. -/
structure PitDumped (trace : UsbTrace) (pitOut : Bytes) (opening closing : CommandReply)
    (blocks : List PitBlock) : Prop where
  trace_eq : trace = commandEvents 0x01 [] opening ++ blockEvents 0 blocks ++
    commandEvents 0x03 [] closing
  size_pos : 1 ≤ leAt opening.bytes 4 4
  size_le : leAt opening.bytes 4 4 ≤ 1048576
  count_eq : blocks.length = (leAt opening.bytes 4 4 + 499) / 500
  length_eq : pitOut.length = leAt opening.bytes 4 4
  byte_eq : ∀ k < pitOut.length,
    pitOut[k]? = (blocks[k / 500]?).bind fun block => block.data[k % 500]?

theorem odinDumpPit_success (h : odinDumpPit.Executes trace (some pitOut)) :
    ∃ opening closing blocks, PitDumped trace pitOut opening closing blocks := by
  obtain ⟨opening, rest, rfl, hrest⟩ := executes_answered h rfl fun _ => rfl
  dsimp only at hrest
  split at hrest
  next => exact absurd hrest.2 (by simp)
  next hsize =>
    obtain ⟨hpos, hle⟩ := not_or.mp hsize
    obtain ⟨body, dumped?, rest, rfl, hbody, hrest⟩ := executes_bind.mp hrest
    cases dumped? with
    | none => exact absurd hrest.2 (by simp)
    | some dumped =>
        obtain ⟨closing, last, rfl, hlast⟩ := executes_answered hrest rfl fun _ => rfl
        obtain ⟨rfl, hresult⟩ := hlast
        obtain rfl := Option.some.inj hresult
        have hcover : (List.replicate (leAt opening.bytes 4 4) (0 : UInt8)).length ≤
            (0 + (leAt opening.bytes 4 4 + pitBlockSize - 1) / pitBlockSize) * pitBlockSize := by
          rw [List.length_replicate, pitBlockSize]
          omega
        obtain ⟨blocks, hcount, rfl, hout⟩ := odinDumpBlocks_served hcover hbody
        have hlengths : ∀ data ∈ blocks.map PitBlock.data, data.length = 500 := by
          intro data hmem
          obtain ⟨block, -, rfl⟩ := List.mem_map.mp hmem
          exact block.full
        have htotal := length_flatten_of_length hlengths
        rw [List.length_map, hcount] at htotal
        have hout : pitOut = (blocks.map PitBlock.data).flatten.take (leAt opening.bytes 4 4) := by
          simpa using hout
        have hlength : pitOut.length = leAt opening.bytes 4 4 := by
          rw [hout, List.length_take_of_le]
          rw [htotal, pitBlockSize]
          omega
        refine ⟨opening, closing, blocks, by simp, by omega, by omega, hcount, hlength,
          fun k hk => ?_⟩
        rw [hlength] at hk
        rw [hout, List.getElem?_take_of_lt hk, getElem?_flatten_of_length (by decide) hlengths,
          List.getElem?_map, Option.bind_map]
        rfl

end Success

/-! ## Failures -/

/-- A reply that never came, is too short, or reports a failure. -/
def RefusedReply (reply : Option Bytes) : Prop :=
  ∀ rsp, reply = some rsp → rsp.length < 8 ∨ rsp.head? = some 0xFF

/-- A write that failed, a command that was refused, or a block that was not received. -/
def UsbEvent.Fails (event : UsbEvent) : Prop :=
  match event with
  | ⟨.openDevice _ _, ok⟩ => ok = false
  | ⟨.bulkWriteAll _ _, ok⟩ => ok = false
  | ⟨.bulkReadOnce _ _, reply⟩ => RefusedReply (reply.map Subtype.val)
  | ⟨.receivePacket _ _ _ _, reply⟩ => reply.map Subtype.val = none

theorem odinFailCheck_of_refused {rsp : Bytes} (h : RefusedReply (some rsp)) :
    odinFailCheck rsp false = false := by
  rcases h rsp rfl with hshort | hhead
  · rw [odinFailCheck, if_pos hshort]
  · simp [odinFailCheck, hhead]

section Failures

theorem usbCall_stops (request : UsbCall) {failed : request.Reply → Prop}
    (h : ∀ reply, UsbEvent.Fails ⟨request, reply⟩ → failed reply) :
    StopsAt UsbEvent.Fails failed (usbCall request) :=
  stopsAt_perform h

theorem bulkWriteAll_stops (packet : Packet) (timeoutMs : Nat) :
    StopsAt UsbEvent.Fails (· = false) (bulkWriteAll packet timeoutMs) :=
  usbCall_stops (.bulkWriteAll packet timeoutMs) fun _ h => h

theorem bulkReadOnce_stops (size timeoutMs : Nat) :
    StopsAt UsbEvent.Fails RefusedReply (bulkReadOnce size timeoutMs) := by
  have hcall : StopsAt UsbEvent.Fails (fun reply => RefusedReply (reply.map Subtype.val))
      (usbCall (.bulkReadOnce size timeoutMs)) := usbCall_stops _ fun _ h => h
  exact stopsAt_map hcall fun _ h => h

theorem receivePacket_stops (size : Nat) (isControl : Bool) (minSize timeoutMs : Nat) :
    StopsAt UsbEvent.Fails (· = none) (receivePacket size isControl minSize timeoutMs) := by
  have hcall : StopsAt UsbEvent.Fails (fun reply => reply.map Subtype.val = none)
      (usbCall (.receivePacket size isControl minSize timeoutMs)) := usbCall_stops _ fun _ h => h
  exact stopsAt_map hcall fun _ h => h

theorem odinCommand_stops (subcmd : UInt32) (payload : Bytes) :
    StopsAt UsbEvent.Fails RefusedReply (odinCommand 0x65 subcmd payload 5000) := by
  have hnone : RefusedReply none := fun rsp h => absurd h (by simp)
  apply stopsAt_ite (fun _ => stopsAt_pure none)
  intro _
  apply stopsAt_bind (bulkWriteAll_stops _ _)
  · rintro _ rfl
    exact ⟨none, rfl, hnone⟩
  · intro ok
    apply stopsAt_ite (fun _ => stopsAt_pure none)
    intro _
    apply stopsAt_bind (bulkReadOnce_stops _ _)
    · intro rsp? hrefused
      cases rsp? with
      | none => exact ⟨none, rfl, hnone⟩
      | some rsp =>
          by_cases hlength : rsp.length ≠ 8
          · exact ⟨none, if_pos hlength, hnone⟩
          · exact ⟨some rsp, if_neg hlength, hrefused⟩
    · intro rsp?
      cases rsp? with
      | none => exact stopsAt_pure none
      | some rsp => exact stopsAt_ite (fun _ => stopsAt_pure none) fun _ => stopsAt_pure _

/-- A command, of which a refused reply ends the operation. -/
theorem stopsAt_answered {subcmd : UInt32} {payload : Bytes}
    {next : Option Bytes → Usb (Option Bytes)} {f : Bytes → Usb (Option Bytes)}
    (hnone : next none = pure none)
    (hsome : ∀ rsp, next (some rsp) =
      if (!odinFailCheck rsp false) = true then pure none else f rsp)
    (hnext : ∀ rsp, StopsAt UsbEvent.Fails (· = none) (f rsp)) :
    StopsAt UsbEvent.Fails (· = none) (odinCommand 0x65 subcmd payload 5000 >>= next) := by
  apply stopsAt_bind (odinCommand_stops subcmd payload)
  · intro rsp? hrefused
    cases rsp? with
    | none => exact ⟨none, hnone, rfl⟩
    | some rsp =>
        rw [hsome, odinFailCheck_of_refused hrefused]
        exact ⟨none, rfl, rfl⟩
  · intro rsp?
    cases rsp? with
    | none =>
        rw [hnone]
        exact stopsAt_pure none
    | some rsp =>
        rw [hsome]
        exact stopsAt_ite (fun _ => stopsAt_pure none) fun _ => hnext rsp

theorem odinDumpBlocks_stops (count i : Nat) (pitOut : Bytes) :
    StopsAt UsbEvent.Fails (· = none) (odinDumpBlocks count i pitOut) := by
  induction count generalizing i pitOut with
  | zero => exact stopsAt_pure _
  | succ count ih =>
      refine stopsAt_answered rfl (fun _ => rfl) fun rsp => ?_
      apply stopsAt_bind (receivePacket_stops _ _ _ _)
      · rintro _ rfl
        exact ⟨none, rfl, rfl⟩
      · intro data?
        cases data? with
        | none => exact stopsAt_pure none
        | some data => exact stopsAt_ite (fun _ => stopsAt_pure none) fun _ => ih _ _

theorem odinDumpPit_stops : StopsAt UsbEvent.Fails (· = none) odinDumpPit := by
  refine stopsAt_answered rfl (fun _ => rfl) fun rsp => ?_
  apply stopsAt_ite (fun _ => stopsAt_pure none)
  intro _
  apply stopsAt_bind (odinDumpBlocks_stops _ _ _)
  · rintro _ rfl
    exact ⟨none, rfl, rfl⟩
  · intro dumped?
    cases dumped? with
    | none => exact stopsAt_pure none
    | some dumped => exact stopsAt_answered rfl (fun _ => rfl) fun _ => stopsAt_pure _

end Failures

/-! ## Copies -/

/-- `memcpy` into a buffer at `off`, unless it leaves one of the two buffers. -/
def memcpyAt (dst : Bytes) (off : Nat) (src : Bytes) (count : Nat) : Option Bytes :=
  if off + count ≤ dst.length ∧ count ≤ src.length then
    some (dst.take off ++ src.take count ++ dst.drop (off + count))
  else none

/-- `odinDumpBlocks` with checked copies: the result is none if one left its buffers. -/
def odinDumpBlocksChecked : (count i : Nat) → (pitOut : Bytes) → Usb (Option (Option Bytes))
  | 0, _, pitOut => return some (some pitOut)
  | count + 1, i, pitOut => do
      let some rsp ← odinCommand 0x65 0x02 (leBytes 4 i) 5000 | return some none
      if !odinFailCheck rsp false then return some none
      let some data ← receivePacket pitBlockSize false pitBlockSize 5000 | return some none
      if data.length ≠ pitBlockSize then return some none
      let off := i * pitBlockSize
      let copy := min data.length (pitOut.length - off)
      -- A difference below zero would wrap around, and the check refuses `off` then.
      let some pitOut := memcpyAt pitOut off data copy | return none
      odinDumpBlocksChecked count (i + 1) pitOut

/-- `odinDumpPit` with checked copies. -/
def odinDumpPitChecked : Usb (Option (Option Bytes)) := do
  let some rsp ← odinCommand 0x65 0x01 [] 5000 | return some none
  if !odinFailCheck rsp false then return some none
  let size := leAt rsp 4 4
  if size = 0 ∨ 1048576 < size then return some none
  let blocks := (size + pitBlockSize - 1) / pitBlockSize
  let some dumped? ← odinDumpBlocksChecked blocks 0 (List.replicate size 0) | return none
  let some pitOut := dumped? | return some none
  let some rsp ← odinCommand 0x65 0x03 [] 5000 | return some none
  if !odinFailCheck rsp false then return some none
  return some (some pitOut)

/-- A block that begins inside the buffer is copied inside both buffers. -/
theorem memcpyAt_block {pitOut data : Bytes} {off : Nat} (hoff : off ≤ pitOut.length) :
    memcpyAt pitOut off data (min data.length (pitOut.length - off)) =
      some (copyBlock pitOut data off) := by
  have hdst : off + min data.length (pitOut.length - off) ≤ pitOut.length := by omega
  exact if_pos ⟨hdst, Nat.min_le_left _ _⟩

/-- A reply or a block that is refused ends both versions, and they agree on the rest. -/
theorem checked_bind_eq {operation : Usb (Option Bytes)} {refused : Bytes → Prop}
    [DecidablePred refused] {next : Option Bytes → Usb (Option Bytes)}
    {next' : Option Bytes → Usb (Option (Option Bytes))} {f : Bytes → Usb (Option Bytes)}
    {g : Bytes → Usb (Option (Option Bytes))}
    (hnone : next none = pure none) (hnone' : next' none = pure (some none))
    (hsome : ∀ data, next (some data) = if refused data then pure none else f data)
    (hsome' : ∀ data, next' (some data) = if refused data then pure (some none) else g data)
    (h : ∀ data, g data = some <$> f data) :
    operation >>= next' = some <$> (operation >>= next) := by
  rw [map_bind]
  apply bind_congr
  rintro (_ | data)
  · rw [hnone, hnone']
    rfl
  · rw [hsome, hsome']
    split
    next => rfl
    next => exact h data

theorem odinDumpBlocksChecked_eq {count i : Nat} {pitOut : Bytes}
    (h : (i + count) * pitBlockSize < pitOut.length + pitBlockSize) :
    odinDumpBlocksChecked count i pitOut = some <$> odinDumpBlocks count i pitOut := by
  induction count generalizing i pitOut with
  | zero => rfl
  | succ count ih =>
      -- Every block that is requested begins inside the table.
      have hoff : i * pitBlockSize ≤ pitOut.length := by
        rw [← Nat.add_assoc, Nat.add_mul, Nat.add_mul] at h
        omega
      refine checked_bind_eq rfl rfl (fun _ => rfl) (fun _ => rfl) fun rsp => ?_
      refine checked_bind_eq rfl rfl (fun _ => rfl) (fun _ => rfl) fun data => ?_
      have hnext : (i + 1 + count) * pitBlockSize <
          (copyBlock pitOut data (i * pitBlockSize)).length + pitBlockSize := by
        rwa [length_copyBlock, Nat.add_right_comm]
      dsimp only
      rw [memcpyAt_block hoff]
      exact ih hnext

theorem odinDumpPitChecked_eq : odinDumpPitChecked = some <$> odinDumpPit := by
  refine checked_bind_eq rfl rfl (fun _ => rfl) (fun _ => rfl) fun rsp => ?_
  by_cases hsize : leAt rsp 4 4 = 0 ∨ 1048576 < leAt rsp 4 4
  · rw [if_pos hsize, if_pos hsize]
    rfl
  have hblocks : (0 + (leAt rsp 4 4 + pitBlockSize - 1) / pitBlockSize) * pitBlockSize <
      (List.replicate (leAt rsp 4 4) (0 : UInt8)).length + pitBlockSize := by
    rw [List.length_replicate, pitBlockSize]
    omega
  rw [if_neg hsize, if_neg hsize]
  dsimp only
  rw [odinDumpBlocksChecked_eq hblocks, bind_map_left, map_bind]
  apply bind_congr
  rintro (_ | pitOut)
  · rfl
  · exact checked_bind_eq rfl rfl (fun _ => rfl) (fun _ => rfl) fun _ => rfl

/-- A dump returns exactly what was served, ends at the first failure, and copies
inside its buffers only. -/
theorem odinDumpPit_reassembles :
    (∀ trace pitOut, odinDumpPit.Executes trace (some pitOut) →
      ∃ opening closing blocks, PitDumped trace pitOut opening closing blocks) ∧
    StopsAt UsbEvent.Fails (· = none) odinDumpPit ∧
    odinDumpPitChecked = some <$> odinDumpPit :=
  ⟨fun _ _ h => odinDumpPit_success h, odinDumpPit_stops, odinDumpPitChecked_eq⟩

/-- A device with a table of 600 bytes. Each of its blocks repeats its own number. -/
def tableDevice : UsbEnvironment :=
  answeringDevice fun packet size =>
    match packet with
    | .odin _ 0x01 _ => leBytes 4 0x65 ++ leBytes 4 600
    | .odin _ 0x02 number => if size = 8 then leBytes 8 0x65 else List.replicate size (number.headD 0)
    | _ => leBytes 8 0x65

theorem odinDumpPit_reassembles_tableDevice :
    ∃ trace opening closing blocks,
      PitDumped trace (List.replicate 500 0 ++ List.replicate 100 1) opening closing blocks := by
  have hresult : (odinDumpPit.run tableDevice []).2 =
      some (List.replicate 500 0 ++ List.replicate 100 1) := by decide +kernel
  exact ⟨_, odinDumpPit_reassembles.1 _ _ (hresult ▸ executes_run tableDevice [] odinDumpPit)⟩

end Odin4
