import Odin4.Interaction.Listener
import Odin4.Usb.Exchange

/-!
# Receiving packets

The other side of the link as a listener that takes the packets of a program,
whether or not the program learns that they have arrived.
-/

namespace Odin4

open Interaction Program Dialogue

/-- From `s` a receiver takes every packet that the program writes. -/
abbrev Takes {State α : Type} (receive : State → Packet → Option State) (s : State)
    (program : Usb α) (post : α → State → Prop) : Prop :=
  Hears UsbEvent.packet? receive s program post

section Takes

variable {State α : Type} {receive : State → Packet → Option State} {s next : State}
variable {program : Usb α} {packet : Packet}

/-- A program whose exchanges are known. -/
theorem takes_exchanges {post : α → State → Prop} {known : List Exchange → α → Prop}
    (h : Exchanges program known) (hlisten : ∀ xs a, known xs a →
      ∃ last, listen receive s (messages xs) = some last ∧ post a last) :
    Takes receive s program post := by
  intro trace a hexec
  obtain ⟨xs, rfl, hknown⟩ := h trace a hexec
  have htaken := hlisten xs a hknown
  rw [← sent_exchanges] at htaken
  exact htaken

/-- A program that writes one packet. -/
theorem takes_packet (h : Exchanges program fun xs _ => messages xs = [packet])
    (hnext : receive s packet = some next) :
    Takes receive s program fun _ last => last = next := by
  refine takes_exchanges h fun xs a hmessages => ⟨next, ?_, rfl⟩
  rw [hmessages, listen_cons, hnext]
  rfl

theorem Single.messages_eq {xs : List Exchange} {ok : Bool} (h : Single packet xs ok) :
    messages xs = [packet] := by
  obtain ⟨x, rfl, rfl, -⟩ := h
  rfl

/-- Even a packet that is refused has been written. -/
theorem messages_of_follows {index : UInt32} {xs : List Exchange} {ok : Bool}
    (h : Follows [packet] index xs ok) : messages xs = [packet] := by
  obtain ⟨x, rest, rfl, hpacket, hrest⟩ := h
  have hnone : rest = [] := by
    split at hrest
    · exact hrest.1
    · exact hrest.1
  rw [hnone]
  exact congrArg (fun packet => [packet]) hpacket

/-- The packets that a receiver has taken are those of the exchanges. -/
theorem Takes.and_exchanges {post : α → State → Prop} {known : List Exchange → α → Prop}
    (h : Takes receive s program post) (hknown : Exchanges program known) :
    Takes receive s program fun a last => post a last ∧
      ∃ xs, known xs a ∧ listen receive s (messages xs) = some last := by
  intro trace a hexec
  obtain ⟨last, hlisten, hpost⟩ := h trace a hexec
  obtain ⟨xs, rfl, hxs⟩ := hknown trace a hexec
  have hsent : listen receive s (sent (xs.flatMap Exchange.events)) = some last := hlisten
  rw [sent_exchanges] at hsent
  exact ⟨last, hlisten, hpost, xs, hxs, hsent⟩

end Takes

end Odin4
