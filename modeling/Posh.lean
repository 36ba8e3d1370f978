import Posh.Cli.Target
import Posh.Cli.Terminfo
import Posh.Rec.Boundaries
import Posh.Rec.Bursts
import Posh.Rec.Golden
import Posh.Rec.Surrogates
import Posh.Remote.Acks
import Posh.Remote.CullOrder
import Posh.Remote.Departure
import Posh.Remote.Diff
import Posh.Remote.Emulation
import Posh.Remote.Idle
import Posh.Remote.Keys
import Posh.Remote.LinkTable
import Posh.Remote.ModeSync
import Posh.Remote.MouseReports
import Posh.Remote.Payloads
import Posh.Remote.PtyInput
import Posh.Remote.Recovery
import Posh.Remote.RoundTrip
import Posh.Remote.SshWrap
import Posh.Remote.WideOverlays
import Posh.Session.DetachKey
import Posh.Session.Framing
import Posh.Session.Info
import Posh.Session.KeyFlags
import Posh.Session.Names
import Posh.Session.Teardown
import Posh.Session.WindowSize
import Posh.Term.InView
import Posh.Term.Pairing
import Posh.Term.Payloads
import Posh.Term.PngFiles
import Posh.Term.SoundRuns
import Posh.Term.StoreRuns
import Posh.Term.Switched
