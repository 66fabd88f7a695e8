import BabyfacePro.Control
import BabyfacePro.Core.Announce
import BabyfacePro.Core.Card
import BabyfacePro.Core.Coherence
import BabyfacePro.Core.Contract
import BabyfacePro.Core.Crosspoints
import BabyfacePro.Core.EqRange
import BabyfacePro.Core.EqUpload
import BabyfacePro.Core.Failure
import BabyfacePro.Core.Masters
import BabyfacePro.Core.Mirror
import BabyfacePro.Core.OutWheel
import BabyfacePro.Core.Preamp
import BabyfacePro.Core.Rebuilt
import BabyfacePro.Core.Replay
import BabyfacePro.Core.Resync
import BabyfacePro.Core.Saved
import BabyfacePro.Core.Seen
import BabyfacePro.Core.Unwind
import BabyfacePro.Eq.Accuracy
import BabyfacePro.Eq.Bell
import BabyfacePro.Eq.Block
import BabyfacePro.Eq.Stable
import BabyfacePro.Panel.Counter
import BabyfacePro.Panel.Display
import BabyfacePro.Panel.Idle
import BabyfacePro.Panel.Latch
import BabyfacePro.Panel.MixLevel
import BabyfacePro.Panel.Reprobe
import BabyfacePro.Panel.Shadow
import BabyfacePro.Panel.Stages
import BabyfacePro.Stream.Clocked
import BabyfacePro.Stream.Copy
import BabyfacePro.Stream.Delay
import BabyfacePro.Stream.Faults
import BabyfacePro.Stream.Geometry
import BabyfacePro.Stream.Offer
import BabyfacePro.Stream.Pcm
import BabyfacePro.Stream.Queue
import BabyfacePro.Stream.Rest
import BabyfacePro.Stream.RoundTrip
import BabyfacePro.Stream.Running
import BabyfacePro.Stream.Session
import BabyfacePro.Stream.Teardown
