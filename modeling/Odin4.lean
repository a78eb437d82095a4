import Odin4.Archive.FrameSize
import Odin4.Archive.HeaderChecksum
import Odin4.Archive.RoundTrip
import Odin4.Archive.TrailerAcceptance
import Odin4.Archive.Footprint
import Odin4.Archive.WalkBounds
import Odin4.Archive.PitLookup
import Odin4.Archive.Overrides
import Odin4.Archive.PlacedEntries
import Odin4.Archive.Truncation
import Odin4.Archive.Coverage
import Odin4.Archive.Culprit
import Odin4.Archive.Lz4Footprint
import Odin4.Archive.LegacyCheck
import Odin4.Archive.ImageNames
import Odin4.Archive.NamedFiles
import Odin4.Run.Atomicity
import Odin4.Run.Closing
import Odin4.Run.OneProtocol
import Odin4.Run.FlashedOnce
import Odin4.Usb.BulkRead
import Odin4.Usb.BulkWrite
import Odin4.Usb.Holdings
import Odin4.Usb.LegacyExact
import Odin4.Usb.PitCodec
import Odin4.Usb.PitDump
import Odin4.Usb.TransferWindow
import Odin4.Usb.Listing
import Odin4.Archive.UnknownMembers
import Odin4.Run.OnTheWire
import Odin4.Run.CommandLine
import Odin4.Run.Main
import Odin4.Usb.ThorReceiver
import Odin4.Archive.Passing
import Odin4.Archive.Committed
import Odin4.Archive.ThorCommitted
import Odin4.Archive.LegacyCommitted
import Odin4.Usb.ThorWire
import Odin4.Usb.LegacyWire
import Odin4.Archive.Origins
import Odin4.Archive.PackedFiles
import Odin4.Run.Written
import Odin4.Run.SessionShape
import Odin4.Run.Installed
import Odin4.Run.Succeeds
import Odin4.Run.Targets
