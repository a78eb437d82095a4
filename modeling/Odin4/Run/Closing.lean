import Odin4.Run.Protocol

/-!
# Closing of sessions

A session is begun when the device accepts the begin command. The run then
sends exactly one end command, unless the device refuses the packet size
command, the second half of a legacy begin.
-/

namespace Odin4

open Interaction Program Dialogue Computability

/-! ## Begun sessions -/

/-- The device accepted the begin command. Only acknowledgements of file data
depend on the number of a part, so any number will do. -/
def SessionBegun (xs : List Exchange) : Prop :=
  ∃ x ∈ xs, x.packet.isBeginSession = true ∧ x.accepted 0 = true

/-- The device refused the packet size command, or did not answer it. -/
def PacketSizeRefused (xs : List Exchange) : Prop :=
  ∃ x ∈ xs, x.packet.isPacketSize = true ∧ x.accepted 0 = false

instance (xs : List Exchange) : Decidable (SessionBegun xs) :=
  inferInstanceAs (Decidable (∃ x ∈ xs, _ ∧ _))

instance (xs : List Exchange) : Decidable (PacketSizeRefused xs) :=
  inferInstanceAs (Decidable (∃ x ∈ xs, _ ∧ _))

/-- One end command for a begun session, except where the packet size was refused. -/
def Closed (xs : List Exchange) : Prop :=
  SessionBegun xs →
    ((messages xs).countP Packet.isEndSession = 1 ↔ ¬ PacketSizeRefused xs)

theorem accepted_eq_zero {x : Exchange} (hcheck : x.packet.isCheckTraffic = true)
    (index : UInt32) : x.accepted index = x.accepted 0 := by
  obtain ⟨packet, timeoutMs, written, reads, answered⟩ := x
  have hreply : packet.replyAccepted index = packet.replyAccepted 0 := by
    funext read
    cases packet with
    | data bytes => simp [Packet.isCheckTraffic] at hcheck
    | preamble => rfl
    | thor packet =>
        cases read with
        | bulkReadOnce => cases packet <;> rfl
        | receivePacket size isControl => cases packet <;> cases isControl <;> rfl
    | odin cmd subcmd payload => cases read <;> rfl
  simp only [Exchange.accepted, hreply]

/-! ## Turns of the parts of a session -/

section Turns

variable {words : Language Packet} {s : UInt32} {xs ys : List Exchange} {complete : Prop}

/-- The one or two commands that begin a session. -/
theorem begin_turns {mode : ProtocolMode} (h : Orderly mode.beginWords s xs complete) :
    xs = [] ∨ ∃ x, x.packet.isBeginSession = true ∧
      (xs = [x] ∨ ∃ y, y.packet.isPacketSize = true ∧ xs = [x, y]) := by
  obtain ⟨word, hword, hinit⟩ := h.initial
  have hkinds : ∃ b p : Packet, b.isBeginSession = true ∧ p.isPacketSize = true ∧
      messages xs <+: [b, p] := by
    cases mode with
    | thor =>
        obtain ⟨_, rfl, rfl⟩ := hword
        exact ⟨_, .odin 0x64 0x05 [], rfl, rfl, hinit.trans ⟨_, rfl⟩⟩
    | odinLegacy =>
        obtain ⟨_, ⟨_, rfl, rfl⟩, _, rfl | ⟨_, rfl, rfl⟩, rfl⟩ := hword
        · exact ⟨_, .odin 0x64 0x05 [], rfl, rfl, hinit.trans ⟨_, rfl⟩⟩
        · exact ⟨_, _, rfl, rfl, hinit⟩
  obtain ⟨b, p, hb, hp, hmessages⟩ := hkinds
  match xs, hmessages with
  | [], _ => exact .inl rfl
  | [x], hmessages =>
      obtain ⟨rfl, -⟩ := List.cons_prefix_cons.mp hmessages
      exact .inr ⟨x, hb, .inl rfl⟩
  | [x, y], hmessages =>
      obtain ⟨rfl, htail⟩ := List.cons_prefix_cons.mp hmessages
      obtain ⟨rfl, -⟩ := List.cons_prefix_cons.mp htail
      exact .inr ⟨x, hb, .inr ⟨y, hp, rfl⟩⟩
  | x :: y :: z :: rest, hmessages => exact absurd hmessages.length_le (by simp [messages])

theorem sessionBegun_append : SessionBegun (xs ++ ys) ↔ SessionBegun xs ∨ SessionBegun ys := by
  simp [SessionBegun, or_and_right, exists_or]

theorem packetSizeRefused_append :
    PacketSizeRefused (xs ++ ys) ↔ PacketSizeRefused xs ∨ PacketSizeRefused ys := by
  simp [PacketSizeRefused, or_and_right, exists_or]

theorem not_packetSizeRefused (h : ∀ x ∈ xs, x.packet.isPacketSize = false) :
    ¬ PacketSizeRefused xs := by
  rintro ⟨x, hx, hsize, -⟩
  simp [h x hx] at hsize

theorem countP_end_eq_zero (h : ∀ x ∈ xs, x.packet.isEndSession = false) :
    (messages xs).countP Packet.isEndSession = 0 := by
  rw [List.countP_eq_zero]
  intro packet hmem
  obtain ⟨x, hx, rfl⟩ := List.mem_map.mp hmem
  simpa [message] using h x hx

/-- Turns before the session do not matter. -/
theorem Closed.after_neutral (hneutral : ∀ x ∈ xs, x.packet.IsNeutral) (h : Closed ys) :
    Closed (xs ++ ys) := by
  intro hbegun
  have hrefused : ¬ PacketSizeRefused xs := not_packetSizeRefused fun x hx => (hneutral x hx).2.2
  rw [messages_append, List.countP_append, countP_end_eq_zero fun x hx => (hneutral x hx).1,
    Nat.zero_add, packetSizeRefused_append, or_iff_right hrefused]
  refine h (((sessionBegun_append).mp hbegun).resolve_left ?_)
  rintro ⟨x, hx, hbegin, -⟩
  simp [(hneutral x hx).2.1] at hbegin

/-! ## Every run -/

/-- A refused begin: where the begin command was accepted, it was the packet
size that was refused, and no end command is sent. -/
theorem closed_of_refused {mode : ProtocolMode} (h : Orderly mode.beginWords s xs complete)
    (hrefused : ¬ AllAccepted s xs) : Closed xs := by
  have hover := orderly_over h (over_beginWords mode)
  rw [Closed, countP_end_eq_zero fun x hx => (hover x hx).2]
  rintro ⟨b, hb, hbegin, haccepted⟩
  simp only [zero_ne_one, false_iff, not_not]
  have hzero : ∀ x ∈ xs, ∀ index, x.accepted index = x.accepted 0 := fun x hx index =>
    accepted_eq_zero (hover x hx).1 index
  obtain rfl | ⟨x, -, rfl | ⟨y, hy, rfl⟩⟩ := begin_turns h
  · exact absurd trivial hrefused
  · obtain rfl : b = x := by simpa using hb
    exact absurd ⟨(hzero b hb s).trans haccepted, trivial⟩ hrefused
  · refine ⟨y, by simp, hy, ?_⟩
    have hstop : FailStop s ([x] ++ [y]) := h.failStop
    have hx : accepted s x = true := hstop.before.1
    rw [← hzero y (by simp) (next s x), ← Bool.not_eq_true]
    exact fun hyaccepted => hrefused ⟨hx, hyaccepted, trivial⟩

/-- In an opened session nothing was refused before, and one end command follows. -/
theorem closed_of_opened {mode : ProtocolMode} {dryRun : Bool} {rc : ExitCode}
    (hbegun : Orderly mode.beginWords s xs True)
    (hcloses : Closes (mode.pitWords * mode.workWords dryRun) mode (after s xs) rc ys) :
    Closed (xs ++ ys) := by
  cases hcloses with
  | @intro ys z hwork _ hend _ =>
      have hbegin := orderly_over hbegun (over_beginWords mode)
      have hinner : ∀ x ∈ ys, x.packet.IsNeutral :=
        orderly_over hwork (((over_pitWords mode).mono fun _ h => h.2).mul
          (over_workWords mode dryRun))
      have hlast := over_endWords mode _ hend z.packet (List.mem_singleton_self _)
      have hcount : (messages (xs ++ (ys ++ [z]))).countP Packet.isEndSession = 1 := by
        rw [messages_append, messages_append, List.countP_append, List.countP_append,
          countP_end_eq_zero fun x hx => (hbegin x hx).2,
          countP_end_eq_zero fun x hx => (hinner x hx).1]
        simp [messages, message, hlast.2.1]
      have haccepted : ¬ PacketSizeRefused xs := by
        rintro ⟨x, hx, -, hrefused⟩
        obtain ⟨index, hindex⟩ := (hbegun.whole trivial).1.exists_accepted hx
        have hzero : x.accepted index = x.accepted 0 := accepted_eq_zero (hbegin x hx).1 index
        exact Bool.false_ne_true (hrefused.symm.trans (hzero.symm.trans hindex))
      have hrest : ¬ PacketSizeRefused (ys ++ [z]) := by
        refine not_packetSizeRefused fun x hx => ?_
        rcases List.mem_append.mp hx with hx | hx
        · exact (hinner x hx).2.2
        · rw [List.mem_singleton.mp hx]
          exact hlast.2.2.2
      intro _
      rw [packetSizeRefused_append]
      exact iff_of_true hcount (not_or.mpr ⟨haccepted, hrest⟩)

theorem RunTurns.closed {mode : ProtocolMode} {dryRun : Bool} {rc : ExitCode}
    (h : RunTurns mode dryRun rc xs) : Closed xs := by
  cases h with
  | unbegun hdevice _ =>
      have hneutral := orderly_over hdevice (over_deviceWords mode)
      rintro ⟨x, hx, hbegin, -⟩
      simp [(hneutral x hx).2.2.1] at hbegin
  | session hdevice hsession =>
      have hdevice := orderly_over hdevice (over_deviceWords mode)
      refine Closed.after_neutral (fun x hx => (hdevice x hx).2) ?_
      cases hsession with
      | refused hbegun hrefused _ => exact closed_of_refused hbegun hrefused
      | opened hbegun hcloses => exact closed_of_opened hbegun hcloses

theorem handshake_neutral (h : messages xs <+: [.preamble, .thor .handshake]) :
    ∀ x ∈ xs, x.packet.IsNeutral := by
  intro x hx
  have hmem : x.packet ∈ [Packet.preamble, .thor .handshake] :=
    h.subset (List.mem_map_of_mem hx)
  simp only [List.mem_cons, List.not_mem_nil, or_false] at hmem
  obtain hpacket | hpacket := hmem <;> rw [hpacket] <;> exact ⟨rfl, rfl, rfl⟩

end Turns

/-- In every run that begins a session exactly one end command is sent, if and
only if the device does not refuse the packet size. -/
theorem endSession_sent_iff {host : Host} {cfg : OdinConfig} {trace : UsbTrace} {rc : ExitCode}
    (h : (runForDevice host cfg).Executes trace rc) :
    ∃ opened xs, trace = ⟨.openDevice cfg.devicePath (criteriaFromConfig cfg), opened⟩ ::
        xs.flatMap Exchange.events ∧
      (SessionBegun xs →
        ((sent trace).countP Packet.isEndSession = 1 ↔ ¬ PacketSizeRefused xs)) := by
  obtain ⟨opened, hs, xs, rfl, hturns⟩ := runForDevice_turns h
  refine ⟨opened, hs ++ xs, rfl, ?_⟩
  rw [sent_open, sent_exchanges]
  obtain ⟨rfl, hinit, -⟩ | ⟨mode, hhandshake, hrun⟩ := hturns
  · have hnone : Closed ([] : List Exchange) := by
      rintro ⟨x, hx, -⟩
      simp at hx
    exact hnone.after_neutral (handshake_neutral hinit)
  · refine hrun.closed.after_neutral (handshake_neutral ?_)
    rw [hhandshake]
    cases mode with
    | thor => exact List.prefix_rfl
    | odinLegacy => exact ⟨[.thor .handshake], rfl⟩

/-! ## A legacy device and the packet size -/

/-- A device of protocol version 2 without a PIT. The packet size command is
answered with the given word. -/
def packetSizeAnswers (answer : UInt8) : Packet → (size : Nat) → Bytes
  | .preamble, _ => ascii "LOKE"
  | .odin 0x64 0x00 _, _ => [0x64, 0, 0, 0, 0, 0, 2, 0]
  | .odin 0x64 0x05 _, _ => answer :: leBytes 7 0
  | _, size => leBytes size 0

/-- A run against it. -/
def packetSizeRun (answer : UInt8) : UsbTrace × ExitCode :=
  (runForDevice emptyHost {}).run (answeringDevice (packetSizeAnswers answer)) []

/-- The commands that begin the session. -/
def beginExchanges (answer : UInt8) : List Exchange :=
  [.answeredBy .preamble usbTimeoutControl
      [.bulkReadOnce 8 usbTimeoutControl (some ⟨ascii "LOKE", by decide⟩)] (by simp),
    .answeredBy (.odin 0x64 0x00 (leBytes 4 0x7FFFFFFF)) usbTimeoutControl
      [.bulkReadOnce 8 usbTimeoutControl (some ⟨[0x64, 0, 0, 0, 0, 0, 2, 0], by decide⟩)] (by simp),
    .answeredBy (.odin 0x64 0x05 (leBytes 4 1048576)) usbTimeoutControl
      [.bulkReadOnce 8 usbTimeoutControl (some ⟨answer :: leBytes 7 0, Nat.le_refl 8⟩)] (by simp)]

/-- Where the packet size is accepted: the PIT is asked for in vain, and the session is closed. -/
def pitExchanges : List Exchange :=
  [.answeredBy (.odin 0x65 0x01 []) usbTimeoutControl
      [.bulkReadOnce 8 5000 (some ⟨leBytes 8 0, by decide⟩)] (by simp),
    .answeredBy (.odin 0x67 0x00 []) usbTimeoutControl
      [.bulkReadOnce 8 usbTimeoutControl (some ⟨leBytes 8 0, by decide⟩)] (by simp)]

theorem packetSizeRun_refused : (packetSizeRun 0xFF).1 =
    ⟨.openDevice [] (criteriaFromConfig {}), true⟩ :: (beginExchanges 0xFF).flatMap Exchange.events :=
  rfl

theorem packetSizeRun_accepted : (packetSizeRun 0).1 =
    ⟨.openDevice [] (criteriaFromConfig {}), true⟩ ::
      (beginExchanges 0 ++ pitExchanges).flatMap Exchange.events := rfl

/-- No end command where the packet size is refused, and one where it is accepted. -/
theorem endSession_sent_iff_packetSize :
    (PacketSizeRefused (beginExchanges 0xFF) ∧
      ((sent (packetSizeRun 0xFF).1).countP Packet.isEndSession = 1 ↔
        ¬ PacketSizeRefused (beginExchanges 0xFF))) ∧
    ¬ PacketSizeRefused (beginExchanges 0 ++ pitExchanges) ∧
      ((sent (packetSizeRun 0).1).countP Packet.isEndSession = 1 ↔
        ¬ PacketSizeRefused (beginExchanges 0 ++ pitExchanges)) := by
  obtain ⟨_, xs, hrefused, hclosed⟩ := endSession_sent_iff
    (executes_run (answeringDevice (packetSizeAnswers 0xFF)) [] (runForDevice emptyHost {}))
  obtain ⟨_, ys, haccepted, hopened⟩ := endSession_sent_iff
    (executes_run (answeringDevice (packetSizeAnswers 0)) [] (runForDevice emptyHost {}))
  obtain rfl : beginExchanges 0xFF = xs :=
    exchanges_injective (List.cons.inj (packetSizeRun_refused.symm.trans hrefused)).2
  obtain rfl : beginExchanges 0 ++ pitExchanges = ys :=
    exchanges_injective (List.cons.inj (packetSizeRun_accepted.symm.trans haccepted)).2
  exact ⟨⟨by decide, hclosed (by decide)⟩, by decide, hopened (by decide)⟩

/-- A begun session that is left open. -/
theorem session_left_open :
    ¬ ∀ (host : Host) (cfg : OdinConfig) (trace : UsbTrace) (rc : ExitCode),
      (runForDevice host cfg).Executes trace rc →
      ∀ opened xs, trace = ⟨.openDevice cfg.devicePath (criteriaFromConfig cfg), opened⟩ ::
        xs.flatMap Exchange.events → SessionBegun xs →
      (sent trace).countP Packet.isEndSession = 1 := by
  intro h
  have hone := h emptyHost {} _ _
    (executes_run (answeringDevice (packetSizeAnswers 0xFF)) [] (runForDevice emptyHost {})) true
    (beginExchanges 0xFF) packetSizeRun_refused (by decide)
  revert hone
  decide

end Odin4
