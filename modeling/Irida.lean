import Irida.Analysis.Edges
import Irida.Analysis.EntryCode
import Irida.Analysis.Retracing
import Irida.Analysis.Termination
import Irida.Analysis.Walks
import Irida.Api.Backtrace
import Irida.Api.LiveSession
import Irida.Api.SectionReads
import Irida.Api.Seeds
import Irida.Api.StaticDisasm
import Irida.Api.StaticSession
import Irida.Api.SymbolMaps
import Irida.Backend.BreakpointTable
import Irida.Backend.Detach
import Irida.Backend.HardwareSlots
import Irida.Backend.Inspection
import Irida.Backend.Profiles
import Irida.Backend.RemoteGuest
import Irida.Backend.Requests
import Irida.Backend.SlotOperations
import Irida.Backend.StopEvents
import Irida.Backend.StopKinds
import Irida.Backend.StopState
import Irida.Gui.AsmTokenizer
import Irida.Gui.ByteMap
import Irida.Gui.GraphBlocks
import Irida.Gui.GraphLayout
import Irida.Gui.ProcessWindow
import Irida.Gui.RegistersPanel
import Irida.Gui.TableView
import Irida.Proto.Decoder
import Irida.Proto.Residue
import Irida.Proto.StopReply
import Irida.Session.DebugController
import Irida.Target.Changes
import Irida.Target.Coherence
import Irida.Target.RegisterLayout
import Irida.Target.ShortBlocks
import Irida.Target.Supplied
import Irida.Transport.Attempts
import Irida.Transport.MemoryReplies
import Irida.Transport.Reconnect
import Irida.Transport.SocketWrites
