import Odin4.Interaction.Dialogue
import Odin4.Usb.Device

/-!
# Exchanges

An exchange is one written packet with the reads that answer it. Everything
the program does with an opened device is a sequence of exchanges. An exchange
is accepted when the write succeeded and every reply passed the check that
belongs to the packet; only the acknowledgement of a legacy file part depends
on more than the packet, namely on the number of the part.
-/

namespace Odin4

open Interaction Program Dialogue

/-! ## Replies -/

/-- A read operation with its outcome. -/
inductive UsbRead where
  | bulkReadOnce (size timeoutMs : Nat) (reply : ReadReply size)
  | receivePacket (size : Nat) (isControl : Bool) (minSize timeoutMs : Nat)
      (reply : ReceiveReply size minSize)

namespace UsbRead

def event : UsbRead → UsbEvent
  | .bulkReadOnce size timeoutMs reply => ⟨.bulkReadOnce size timeoutMs, reply⟩
  | .receivePacket size isControl minSize timeoutMs reply =>
      ⟨.receivePacket size isControl minSize timeoutMs, reply⟩

def data? : UsbRead → Option Bytes
  | .bulkReadOnce _ _ reply => reply.map Subtype.val
  | .receivePacket _ _ _ _ reply => reply.map Subtype.val

end UsbRead

/-- A reply that acknowledges a Thor packet. -/
def thorAcknowledged (reply : Option Bytes) : Bool :=
  reply.any fun rsp => decide (thorResponsePacketSize ≤ rsp.length) && responseOk rsp

/-- A reply that acknowledges a legacy command. -/
def odinAcknowledged (allowProgress : Bool) (reply : Option Bytes) : Bool :=
  reply.any fun rsp => rsp.length == 8 && odinFailCheck rsp allowProgress

/-- A reply that acknowledges a legacy file part with the given number. -/
def partAcknowledged (index : UInt32) (reply : Option Bytes) : Bool :=
  odinAcknowledged false reply && reply.any fun rsp => UInt32.ofNat (leAt rsp 4 4) == index

/-- Progress codes are accepted at the end of a sequence only. -/
def progressAllowed (cmd subcmd : UInt32) : Bool := cmd == 0x66 && subcmd == 0x03

/-- Whether a read outcome is what the program wants to see after a packet. A
PIT reply has a header, read as control data, and the table itself. -/
def Packet.replyAccepted (index : UInt32) : Packet → UsbRead → Bool
  | .thor .deviceType, read => read.data?.any fun rsp => packetType rsp == thorPacketDeviceType
  | .thor .pitFile, .receivePacket _ true _ _ reply =>
      (reply.map Subtype.val).any fun rsp => packetType rsp == thorPacketPitFile
  | .thor .pitFile, .receivePacket _ false _ _ reply => reply.isSome
  | .thor _, read => thorAcknowledged read.data?
  | .odin cmd subcmd _, .bulkReadOnce _ _ reply =>
      odinAcknowledged (progressAllowed cmd subcmd) (reply.map Subtype.val)
  | .odin .., .receivePacket _ _ _ _ reply => reply.isSome
  | .data _, .bulkReadOnce _ _ reply => partAcknowledged index (reply.map Subtype.val)
  | .data _, read => thorAcknowledged read.data?
  | .preamble, read => read.data?.any isLoke

/-- The number of the next file part after a packet: parts are counted from the
command that opens a file transfer. -/
def Packet.nextPart (index : UInt32) : Packet → UInt32
  | .data _ => index + 1
  | .odin cmd subcmd _ => if cmd = 0x66 ∧ subcmd = 0x00 then 0 else index
  | _ => index

/-- How many reads answer a packet: a PIT table and a PIT block follow a reply. -/
def Packet.replies : Packet → Nat
  | .thor .pitFile => 2
  | .odin cmd subcmd _ => if cmd = 0x65 ∧ subcmd = 0x02 then 2 else 1
  | _ => 1

/-! ## Exchanges as turns of a dialogue -/

/-- A packet that was written is answered before anything else happens, and
nothing is read after a failed write. -/
structure Exchange where
  packet : Packet
  timeoutMs : Nat
  written : Bool
  reads : List UsbRead
  answered : reads = [] ↔ written = false

namespace Exchange

def events (x : Exchange) : UsbTrace :=
  ⟨.bulkWriteAll x.packet x.timeoutMs, x.written⟩ :: x.reads.map UsbRead.event

def accepted (index : UInt32) (x : Exchange) : Bool :=
  x.written && x.reads.length == x.packet.replies && x.reads.all (x.packet.replyAccepted index)

def nextPart (index : UInt32) (x : Exchange) : UInt32 := x.packet.nextPart index

instance : Dialogue Exchange Packet UInt32 where
  message := packet
  next := nextPart
  accepted := accepted

/-- An exchange whose write failed. -/
def unsent (packet : Packet) (timeoutMs : Nat) : Exchange :=
  ⟨packet, timeoutMs, false, [], by simp⟩

/-- An exchange with at least one read. -/
def answeredBy (packet : Packet) (timeoutMs : Nat) (reads : List UsbRead) (hreads : reads ≠ []) :
    Exchange :=
  ⟨packet, timeoutMs, true, reads, by simpa using hreads⟩

end Exchange

theorem sent_reads (reads : List UsbRead) : sent (reads.map UsbRead.event) = [] := by
  induction reads with
  | nil => rfl
  | cons read rest ih => cases read <;> simpa [UsbRead.event] using ih

@[simp] theorem sent_exchange (x : Exchange) : sent x.events = [x.packet] := by
  rw [Exchange.events, sent_write, sent_reads]

/-- What was sent is what the exchanges carry. -/
theorem sent_exchanges (xs : List Exchange) : sent (xs.flatMap Exchange.events) = messages xs := by
  induction xs with
  | nil => rfl
  | cons x rest ih =>
      rw [List.flatMap_cons, sent_append, sent_exchange, ih]
      rfl

/-! ## An execution splits into exchanges in one way -/

theorem UsbRead.event_injective : Function.Injective UsbRead.event := by
  intro first second h
  cases first <;> cases second <;> simp only [event, Event.mk.injEq, reduceCtorEq, false_and,
    UsbCall.bulkReadOnce.injEq, UsbCall.receivePacket.injEq] at h
  case bulkReadOnce.bulkReadOnce =>
      obtain ⟨⟨rfl, rfl⟩, hreply⟩ := h
      rw [eq_of_heq hreply]
  case receivePacket.receivePacket =>
      obtain ⟨⟨rfl, rfl, rfl, rfl⟩, hreply⟩ := h
      rw [eq_of_heq hreply]

/-- Nothing, or something that starts with a write. -/
def StartsWithWrite (trace : UsbTrace) : Prop :=
  ∀ read : UsbRead, ∀ rest, trace ≠ read.event :: rest

theorem startsWithWrite_exchanges (xs : List Exchange) :
    StartsWithWrite (xs.flatMap Exchange.events) := by
  intro read rest h
  cases xs with
  | nil => simp at h
  | cons x xs => cases read <;> simp [Exchange.events, UsbRead.event] at h

theorem reads_unique {first second : List UsbRead} {rest rest' : UsbTrace}
    (hrest : StartsWithWrite rest) (hrest' : StartsWithWrite rest')
    (h : first.map UsbRead.event ++ rest = second.map UsbRead.event ++ rest') :
    first = second ∧ rest = rest' := by
  induction first generalizing second with
  | nil =>
      cases second with
      | nil => exact ⟨rfl, h⟩
      | cons read second => exact absurd h (hrest read _)
  | cons read first ih =>
      cases second with
      | nil => exact absurd h.symm (hrest' read _)
      | cons read' second =>
          simp only [List.map_cons, List.cons_append, List.cons.injEq] at h
          obtain ⟨rfl, hrest⟩ := ih h.2
          exact ⟨by rw [UsbRead.event_injective h.1], hrest⟩

theorem exchanges_injective {xs ys : List Exchange}
    (h : xs.flatMap Exchange.events = ys.flatMap Exchange.events) : xs = ys := by
  induction xs generalizing ys with
  | nil =>
      cases ys with
      | nil => rfl
      | cons y ys => simp [Exchange.events] at h
  | cons x xs ih =>
      cases ys with
      | nil => simp [Exchange.events] at h
      | cons y ys =>
          obtain ⟨packet, timeoutMs, written, reads, hx⟩ := x
          obtain ⟨packet', timeoutMs', written', reads', hy⟩ := y
          simp only [List.flatMap_cons, Exchange.events, List.cons_append, List.cons.injEq,
            Event.mk.injEq, UsbCall.bulkWriteAll.injEq] at h
          obtain ⟨⟨⟨rfl, rfl⟩, hwritten⟩, hreads⟩ := h
          obtain rfl := eq_of_heq hwritten
          obtain ⟨rfl, hrest⟩ := reads_unique (startsWithWrite_exchanges xs)
            (startsWithWrite_exchanges ys) hreads
          rw [ih hrest]

/-- Only the packets count for the number of the next part. -/
theorem after_exchanges (index : UInt32) (xs : List Exchange) :
    after index xs = (messages xs).foldl Packet.nextPart index := by
  induction xs generalizing index with
  | nil => rfl
  | cons x rest ih => exact ih _

/-- The executions of an operation as exchanges. -/
abbrev Exchanges {α : Type} (program : Usb α) (post : List Exchange → α → Prop) : Prop :=
  Conducts Exchange.events program post

/-- Two descriptions of the same executions. -/
theorem Exchanges.and {α : Type} {program : Usb α} {post post' : List Exchange → α → Prop}
    (h : Exchanges program post) (h' : Exchanges program post') :
    Exchanges program fun xs a => post xs a ∧ post' xs a := by
  intro trace a hexec
  obtain ⟨xs, hxs, hpost⟩ := h trace a hexec
  obtain ⟨ys, hys, hpost'⟩ := h' trace a hexec
  obtain rfl := exchanges_injective (hxs.symm.trans hys)
  exact ⟨xs, hxs, hpost, hpost'⟩

/-! ## The rules of one exchange -/

/-- `program` goes on after `packet` was written and `reads` were performed. -/
def Answering {α : Type} (packet : Packet) (timeoutMs : Nat) (reads : List UsbRead)
    (program : Usb α) (post : List Exchange → α → Prop) : Prop :=
  ∀ trace a, program.Executes trace a →
    ∃ more rest, ∃ hreads : reads ++ more ≠ [],
      trace = more.map UsbRead.event ++ rest.flatMap Exchange.events ∧
        post (.answeredBy packet timeoutMs (reads ++ more) hreads :: rest) a

section Rules

variable {α : Type} {packet : Packet} {timeoutMs : Nat} {reads : List UsbRead}
variable {post : List Exchange → α → Prop}

/-- The exchange is complete. -/
theorem answering_done {program : Usb α} (hreads : reads ≠ [])
    (h : Exchanges program fun rest a =>
      post (.answeredBy packet timeoutMs reads hreads :: rest) a) :
    Answering packet timeoutMs reads program post := by
  intro trace a hexec
  obtain ⟨rest, rfl, hpost⟩ := h trace a hexec
  exact ⟨[], rest, by simpa using hreads, rfl, by simpa using hpost⟩

theorem answering_pure {a : α} (hreads : reads ≠ [])
    (h : post [.answeredBy packet timeoutMs reads hreads] a) :
    Answering packet timeoutMs reads (pure a) post :=
  answering_done hreads (conducts_pure h)

theorem answering_receivePacket {size minSize readTimeoutMs : Nat} {isControl : Bool}
    {f : Option Bytes → Usb α}
    (h : ∀ reply : ReceiveReply size minSize,
      Answering packet timeoutMs
        (reads ++ [.receivePacket size isControl minSize readTimeoutMs reply])
        (f (reply.map Subtype.val)) post) :
    Answering packet timeoutMs reads
      (receivePacket size isControl minSize readTimeoutMs >>= f) post := by
  intro trace a hexec
  obtain ⟨first, data?, second, rfl, hfirst, hsecond⟩ := executes_bind.mp hexec
  obtain ⟨reply, rfl, rfl⟩ := executes_receivePacket.mp hfirst
  obtain ⟨more, rest, hreads, rfl, hpost⟩ := h reply second a hsecond
  refine ⟨.receivePacket size isControl minSize readTimeoutMs reply :: more, rest, by simp, rfl, ?_⟩
  simpa using hpost

theorem answering_bulkReadOnce {size readTimeoutMs : Nat} {f : Option Bytes → Usb α}
    (h : ∀ reply : ReadReply size,
      Answering packet timeoutMs (reads ++ [.bulkReadOnce size readTimeoutMs reply])
        (f (reply.map Subtype.val)) post) :
    Answering packet timeoutMs reads (bulkReadOnce size readTimeoutMs >>= f) post := by
  intro trace a hexec
  obtain ⟨first, data?, second, rfl, hfirst, hsecond⟩ := executes_bind.mp hexec
  obtain ⟨reply, rfl, rfl⟩ := executes_bulkReadOnce.mp hfirst
  obtain ⟨more, rest, hreads, rfl, hpost⟩ := h reply second a hsecond
  refine ⟨.bulkReadOnce size readTimeoutMs reply :: more, rest, by simp, rfl, ?_⟩
  simpa using hpost

/-- An operation that writes a packet, gives up if that fails, and goes on to read. -/
theorem exchanges_bulkWriteAll {early : α} {next : Usb α}
    (hearly : post [.unsent packet timeoutMs] early)
    (hnext : Answering packet timeoutMs [] next post) :
    Exchanges (bulkWriteAll packet timeoutMs >>= fun ok =>
      if (!ok) = true then pure early else next) post := by
  intro trace a hexec
  obtain ⟨first, ok, second, rfl, hfirst, hsecond⟩ := executes_bind.mp hexec
  rw [executes_bulkWriteAll] at hfirst
  subst hfirst
  cases ok with
  | false =>
      obtain ⟨rfl, rfl⟩ := hsecond
      exact ⟨_, rfl, hearly⟩
  | true =>
      obtain ⟨more, rest, hreads, rfl, hpost⟩ := hnext second a hsecond
      exact ⟨_, rfl, hpost⟩

theorem exchanges_sendPacket {early : α} {next : Usb α}
    (hearly : post [.unsent packet usbTimeoutControl] early)
    (hnext : Answering packet usbTimeoutControl [] next post) :
    Exchanges (sendPacket packet true >>= fun ok =>
      if (!ok) = true then pure early else next) post :=
  exchanges_bulkWriteAll hearly hnext

end Rules

/-! ## Single exchanges -/

/-- One exchange of `packet`, of which `ok` tells whether it was accepted. -/
def Single (packet : Packet) (xs : List Exchange) (ok : Bool) : Prop :=
  ∃ x : Exchange, xs = [x] ∧ x.packet = packet ∧ ∀ index, x.accepted index = ok

theorem Single.follows {packet : Packet} {xs : List Exchange} {ok : Bool}
    (h : Single packet xs ok) (index : UInt32) : Follows [packet] index xs ok := by
  obtain ⟨x, rfl, rfl, hok⟩ := h
  exact follows_single (hok index)

theorem single_unsent (packet : Packet) (timeoutMs : Nat) :
    Single packet [.unsent packet timeoutMs] false :=
  ⟨_, rfl, rfl, fun _ => rfl⟩

/-- The packets that are answered by a response packet. -/
def Packet.wantsResponse : Packet → Bool
  | .thor .deviceType => false
  | .thor .pitFile => false
  | .thor _ => true
  | .data _ => true
  | _ => false

theorem single_response {packet : Packet} (hpacket : packet.wantsResponse = true)
    {timeoutMs size minSize readTimeoutMs : Nat} {isControl ok : Bool}
    {reply : ReceiveReply size minSize} (hok : thorAcknowledged (reply.map Subtype.val) = ok) :
    Single packet [.answeredBy packet timeoutMs
      [.receivePacket size isControl minSize readTimeoutMs reply] (by simp)] ok := by
  refine ⟨_, rfl, rfl, fun index => ?_⟩
  subst hok
  cases packet with
  | thor packet =>
      cases packet <;> simp_all [Packet.wantsResponse, Exchange.accepted, Exchange.answeredBy,
        Packet.replies, Packet.replyAccepted, UsbRead.data?]
  | data bytes =>
      simp [Exchange.accepted, Exchange.answeredBy, Packet.replies, Packet.replyAccepted,
        UsbRead.data?]
  | preamble => simp [Packet.wantsResponse] at hpacket
  | odin => simp [Packet.wantsResponse] at hpacket

/-- The check behind a reply that may have been as short as a bare header. -/
theorem answering_response {packet : Packet} (hpacket : packet.wantsResponse = true)
    {timeoutMs readTimeoutMs : Nat} :
    Answering packet timeoutMs [] (do
      let some rsp ← receivePacket thorResponsePacketSize true thorPacketHeaderSize readTimeoutMs
        | return false
      if rsp.length < thorResponsePacketSize then return false
      return responseOk rsp) (Single packet) := by
  refine answering_receivePacket fun reply => ?_
  cases reply with
  | none => exact answering_pure (by simp) (single_response hpacket rfl)
  | some rsp =>
      simp only [Option.map_some]
      split
      next hshort =>
        refine answering_pure (by simp) (single_response hpacket ?_)
        simp [thorAcknowledged, hshort]
      next hfull =>
        refine answering_pure (by simp) (single_response hpacket ?_)
        simp [thorAcknowledged, not_lt.mp hfull]

theorem thorExchange_single {packet : ThorPacket}
    (hpacket : (Packet.thor packet).wantsResponse = true) (timeoutMs : Nat) :
    Exchanges (thorExchange packet timeoutMs) (Single (.thor packet)) :=
  exchanges_sendPacket (single_unsent _ _) (answering_response hpacket)

theorem thorExchangeFull_single {packet : ThorPacket}
    (hpacket : (Packet.thor packet).wantsResponse = true) :
    Exchanges (thorExchangeFull packet) (Single (.thor packet)) := by
  refine exchanges_sendPacket (single_unsent _ _) (answering_receivePacket fun reply => ?_)
  cases reply with
  | none => exact answering_pure (by simp) (single_response hpacket rfl)
  | some rsp =>
      refine answering_pure (by simp) (single_response hpacket ?_)
      have hfull : thorResponsePacketSize ≤ rsp.val.length := rsp.property.1
      simp [thorAcknowledged, hfull]

/-! ## Legacy commands -/

/-- What a legacy command makes of the outcome of its read. -/
def odinReply (reply : ReadReply 8) : Option Bytes :=
  (reply.map Subtype.val).filter fun rsp => rsp.length == 8

theorem odinAcknowledged_odinReply (allowProgress : Bool) (reply : ReadReply 8) :
    odinAcknowledged allowProgress (odinReply reply) =
      odinAcknowledged allowProgress (reply.map Subtype.val) := by
  cases reply with
  | none => rfl
  | some rsp => by_cases hlen : rsp.val.length = 8 <;> simp [odinReply, odinAcknowledged, hlen]

theorem exchanges_odinCommand {α : Type} {cmd subcmd : UInt32} {payload : Bytes}
    {timeoutMs : Nat} {f : Option Bytes → Usb α} {post : List Exchange → α → Prop}
    (hpayload : 8 + payload.length ≤ odinFrameSize)
    (hunsent : Exchanges (f none) fun rest a =>
      post (.unsent (.odin cmd subcmd payload) usbTimeoutControl :: rest) a)
    (hread : ∀ reply : ReadReply 8,
      Answering (.odin cmd subcmd payload) usbTimeoutControl [.bulkReadOnce 8 timeoutMs reply]
        (f (odinReply reply)) post) :
    Exchanges (odinCommand cmd subcmd payload timeoutMs >>= f) post := by
  have hcommand : odinCommand cmd subcmd payload timeoutMs >>= f =
      (bulkWriteAll (.odin cmd subcmd payload) usbTimeoutControl >>= fun ok =>
        if ok then bulkReadOnce 8 timeoutMs >>= fun reply =>
          f (reply.filter fun rsp => rsp.length == 8)
        else f none) := by
    unfold odinCommand
    rw [if_neg (by omega), bind_assoc]
    refine bind_congr fun ok => ?_
    cases ok with
    | false => rfl
    | true =>
        refine (bind_assoc _ _ _).trans (bind_congr fun reply => ?_)
        cases reply with
        | none => rfl
        | some rsp => by_cases hlen : rsp.length = 8 <;> simp [Option.filter, hlen]
  rw [hcommand]
  intro trace a hexec
  obtain ⟨first, ok, second, rfl, hfirst, hsecond⟩ := executes_bind.mp hexec
  rw [executes_bulkWriteAll] at hfirst
  subst hfirst
  cases ok with
  | false =>
      obtain ⟨rest, rfl, hpost⟩ := hunsent second a hsecond
      exact ⟨_, rfl, hpost⟩
  | true =>
      have hanswer : Answering (.odin cmd subcmd payload) usbTimeoutControl []
          (bulkReadOnce 8 timeoutMs >>= fun reply =>
            f (reply.filter fun rsp => rsp.length == 8)) post :=
        answering_bulkReadOnce hread
      obtain ⟨more, rest, hreads, rfl, hpost⟩ := hanswer second a hsecond
      exact ⟨_, rfl, hpost⟩

/-- A legacy command whose reply is read once. -/
theorem single_odin {cmd subcmd : UInt32} {payload : Bytes} {timeoutMs readTimeoutMs : Nat}
    {reply : ReadReply 8} {ok : Bool} (hreplies : (Packet.odin cmd subcmd payload).replies = 1)
    (hok : odinAcknowledged (progressAllowed cmd subcmd) (odinReply reply) = ok) :
    Single (.odin cmd subcmd payload) [.answeredBy (.odin cmd subcmd payload) timeoutMs
      [.bulkReadOnce 8 readTimeoutMs reply] (by simp)] ok := by
  refine ⟨_, rfl, rfl, fun _ => ?_⟩
  rw [odinAcknowledged_odinReply] at hok
  simp only [Exchange.accepted, Exchange.answeredBy, Packet.replyAccepted, hreplies,
    List.length_singleton, BEq.rfl, List.all_cons, List.all_nil, Bool.and_true, Bool.true_and]
  exact hok

theorem odinAcknowledged_some {allowProgress : Bool} {reply : ReadReply 8} {rsp : Bytes}
    (h : odinReply reply = some rsp) :
    odinAcknowledged allowProgress (odinReply reply) = odinFailCheck rsp allowProgress := by
  have hlen : rsp.length = 8 := by simpa using (Option.filter_eq_some_iff.mp h).2
  simp [h, odinAcknowledged, hlen]

/-- A legacy command of which the program keeps the reply. -/
theorem odinCommand_single {cmd subcmd : UInt32} {payload : Bytes} {timeoutMs : Nat}
    (hpayload : 8 + payload.length ≤ odinFrameSize)
    (hreplies : (Packet.odin cmd subcmd payload).replies = 1) :
    Exchanges (odinCommand cmd subcmd payload timeoutMs) fun xs rsp? =>
      Single (.odin cmd subcmd payload) xs
        (rsp?.any (odinFailCheck · (progressAllowed cmd subcmd))) := by
  rw [← bind_pure (odinCommand cmd subcmd payload timeoutMs)]
  refine exchanges_odinCommand hpayload (conducts_pure (single_unsent _ _)) fun reply => ?_
  refine answering_pure (by simp) (single_odin hreplies ?_)
  cases hreply : odinReply reply with
  | none => rfl
  | some rsp =>
      rw [← hreply, odinAcknowledged_some hreply, hreply]
      rfl

theorem odinCheckedCommand_single {cmd subcmd : UInt32} {payload : Bytes} {timeoutMs : Nat}
    {allowProgress : Bool} (hpayload : 8 + payload.length ≤ odinFrameSize)
    (hreplies : (Packet.odin cmd subcmd payload).replies = 1)
    (hprogress : allowProgress = progressAllowed cmd subcmd) :
    Exchanges (odinCheckedCommand cmd subcmd payload timeoutMs allowProgress)
      (Single (.odin cmd subcmd payload)) := by
  subst hprogress
  refine conducts_bind (odinCommand_single hpayload hreplies) fun xs rsp? hxs => ?_
  cases rsp? with
  | none => exact conducts_pure (by simpa using hxs)
  | some rsp => exact conducts_pure (by simpa using hxs)

theorem odinSendFilePartAndAck_follows {flashTimeoutMs : Nat} {data : Bytes} {index : UInt32} :
    Exchanges (odinSendFilePartAndAck flashTimeoutMs data index)
      (Follows [Packet.data data] index) := by
  refine exchanges_bulkWriteAll (follows_single rfl) (answering_bulkReadOnce fun reply => ?_)
  have hfollows : ∀ ok, partAcknowledged index (reply.map Subtype.val) = ok →
      Follows [.data data] index [Exchange.answeredBy (.data data) flashTimeoutMs
        [.bulkReadOnce 8 flashTimeoutMs reply] (by simp)] ok := by
    rintro _ rfl
    refine follows_single ?_
    simp only [accepted, Exchange.accepted, Exchange.answeredBy, Packet.replies,
      Packet.replyAccepted, List.length_singleton, BEq.rfl, List.all_cons, List.all_nil,
      Bool.and_true, Bool.true_and]
  cases reply with
  | none => exact answering_pure (by simp) (hfollows _ rfl)
  | some rsp =>
      simp only [Option.map_some]
      split
      next hlen =>
        exact answering_pure (by simp)
          (hfollows _ (by simp [partAcknowledged, odinAcknowledged, hlen]))
      split
      next hlen hfail =>
        refine answering_pure (by simp) (hfollows _ ?_)
        simp_all [partAcknowledged, odinAcknowledged]
      next hlen hfail =>
        refine answering_pure (by simp) (hfollows _ ?_)
        simp_all [partAcknowledged, odinAcknowledged]

end Odin4
