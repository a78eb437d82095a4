import Odin4.Usb.Enumeration
import Odin4.Usb.Holdings

/-!
# The choice among several devices

A device in download mode competes with a bonus if its product is known, but
only the score of its interface is kept for the comparison with later devices.
The choice is a best one if the bonus of some best device was not needed.
-/

namespace Odin4

open Interaction Program

namespace UsbBus

variable (bus : UsbBus) (specificPath : Bytes) (criteria : UsbSelectionCriteria)

/-- No eligible device has a greater total score. -/
def Best (target : LibusbDevice) : Prop :=
  ∀ dev ∈ bus.devices, bus.eligible specificPath criteria dev = true →
    bus.totalScore criteria dev ≤ bus.totalScore criteria target

/-- Some best device is followed by none whose total score exceeds the score of
its interface. -/
def HasLastingBest : Prop :=
  ∃ before dev after, bus.devices = before ++ dev :: after ∧
    bus.eligible specificPath criteria dev = true ∧ bus.Best specificPath criteria dev ∧
    ∀ later ∈ after, bus.eligible specificPath criteria later = true →
      bus.totalScore criteria later ≤ bus.score criteria dev

variable {bus specificPath criteria}

theorem score_le_totalScore (dev : LibusbDevice) :
    bus.score criteria dev ≤ bus.totalScore criteria dev := by
  unfold totalScore
  split <;> omega

theorem best_iff_candidates {target : LibusbDevice} : bus.Best specificPath criteria target ↔
    ∀ dev ∈ bus.candidates specificPath criteria,
      bus.totalScore criteria dev ≤ bus.totalScore criteria target := by
  simp only [Best, candidates, List.mem_filter, and_imp]

theorem hasLastingBest_iff_stands : bus.HasLastingBest specificPath criteria ↔
    ∃ dev, bus.Best specificPath criteria dev ∧
      Stands (bus.totalScore criteria) (bus.score criteria)
        (bus.candidates specificPath criteria) dev := by
  constructor
  · rintro ⟨before, dev, after, hdevices, heligible, hbest, hafter⟩
    exact ⟨dev, hbest, stands_filter_iff.mpr ⟨before, after, hdevices, heligible, hafter⟩⟩
  · rintro ⟨dev, hbest, hstands⟩
    obtain ⟨before, after, hdevices, heligible, hafter⟩ := stands_filter_iff.mp hstands
    exact ⟨before, dev, after, hdevices, heligible, hbest, hafter⟩

theorem chosen_best_iff {target : LibusbDevice}
    (h : bus.chosen specificPath criteria = some target) :
    bus.Best specificPath criteria target ↔ bus.HasLastingBest specificPath criteria := by
  rw [best_iff_candidates, runningBest_greatest_iff score_le_totalScore h,
    hasLastingBest_iff_stands]
  apply exists_congr
  intro dev
  rw [best_iff_candidates]

end UsbBus

/-- The device that a call selects is a best one exactly if some best device is
a lasting one. -/
theorem openDevice_selects_best_iff {bus : UsbBus} {usb usb' : UsbConnection}
    {once once' : Option Bool} {specificPath : Bytes} {criteria : UsbSelectionCriteria}
    {trace : LibusbTrace} {ok : Bool} {target : LibusbDevice}
    (hexec : (usb.openDevice once specificPath criteria).Executes trace (ok, once', usb'))
    (hbus : bus.Enumerated trace) (htarget : target ∈ targets trace) :
    bus.Best specificPath criteria target ↔ bus.HasLastingBest specificPath criteria := by
  rw [(openDevice_enumerated hexec hbus).1, Option.mem_toList] at htarget
  exact UsbBus.chosen_best_iff htarget

/-! ## Two devices -/

/-- A device of a known product whose interface has three bulk endpoints, and one
of another product with a data interface of two bulk endpoints and a third one. -/
def pairBus (devices : List LibusbDevice) : UsbBus where
  devices := devices
  descriptor dev := some ⟨samsungVid, if dev.address = 1 then 0x685D else 0x6860⟩
  busNumber _ := 1
  deviceAddress dev := UInt8.ofNat dev.address
  activeConfig dev :=
    if dev.address = 1 then some ⟨[[⟨0, 0xFF, [⟨0x81, 2, 512⟩, ⟨0x01, 2, 512⟩, ⟨0x82, 2, 512⟩]⟩]]⟩
    else some ⟨[[⟨0, 0x0A, [⟨0x81, 2, 512⟩, ⟨0x01, 2, 512⟩, ⟨0x82, 3, 64⟩]⟩]]⟩

/-- Everything succeeds, and the bus answers for its devices. -/
def UsbBus.environment (bus : UsbBus) : Environment LibusbCall LibusbCall.Reply :=
  fun past request =>
    match request with
    | .getDeviceList => .obtained ⟨1⟩ bus.devices
    | request => (bus.known request).getD (oneDevice past request)

theorem UsbBus.enumerated_run {α : Type} {bus : UsbBus} {program : Libusb α}
    (h : enumerations (program.run bus.environment []).1 = [bus.devices]) :
    bus.Enumerated (program.run bus.environment []).1 := by
  refine ⟨h, answeredAs_run (fun past request reply hknown => ?_) program []⟩
  cases request <;> first
    | exact Option.some.inj hknown
    | exact absurd hknown.symm (Option.some_ne_none reply)

/-- A call without a path or criteria. -/
def openAny : Libusb (Bool × Option Bool × UsbConnection) :=
  UsbConnection.openDevice {} none [] {}

/-- The known product comes first and is passed over for a device with a lower total. -/
theorem known_product_passed_over :
    ∃ trace result, openAny.Executes trace result ∧ (pairBus [⟨1⟩, ⟨2⟩]).Enumerated trace ∧
      ∃ target ∈ targets trace, ∃ dev ∈ (pairBus [⟨1⟩, ⟨2⟩]).devices,
        (pairBus [⟨1⟩, ⟨2⟩]).eligible [] {} dev = true ∧ (pairBus [⟨1⟩, ⟨2⟩]).pidKnown dev = true ∧
          (pairBus [⟨1⟩, ⟨2⟩]).totalScore {} target < (pairBus [⟨1⟩, ⟨2⟩]).totalScore {} dev := by
  have hlisted : enumerations (openAny.run (pairBus [⟨1⟩, ⟨2⟩]).environment []).1 = [[⟨1⟩, ⟨2⟩]] := by
    decide +kernel
  refine ⟨_, _, executes_run (pairBus [⟨1⟩, ⟨2⟩]).environment [] openAny,
    UsbBus.enumerated_run hlisted, ⟨2⟩, ?_, ⟨1⟩, ?_⟩
  · decide +kernel
  · decide +kernel

/-- In the other order the known product is chosen. -/
theorem openDevice_selects_best_pair :
    ∃ target ∈ targets (openAny.run (pairBus [⟨2⟩, ⟨1⟩]).environment []).1,
      (pairBus [⟨2⟩, ⟨1⟩]).Best [] {} target := by
  have hlisted : enumerations (openAny.run (pairBus [⟨2⟩, ⟨1⟩]).environment []).1 = [[⟨2⟩, ⟨1⟩]] := by
    decide +kernel
  have htarget : ⟨1⟩ ∈ targets (openAny.run (pairBus [⟨2⟩, ⟨1⟩]).environment []).1 := by
    decide +kernel
  refine ⟨⟨1⟩, htarget, (openDevice_selects_best_iff
    (executes_run (pairBus [⟨2⟩, ⟨1⟩]).environment [] openAny) (UsbBus.enumerated_run hlisted)
    htarget).mpr ⟨[⟨2⟩], ⟨1⟩, [], rfl, ?_, ?_, by simp⟩⟩
  · decide +kernel
  · unfold UsbBus.Best
    decide +kernel

end Odin4
