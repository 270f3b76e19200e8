import Fracture.Dashboard.RequestLog
import Fracture.Dashboard.StreamChat
import Fracture.Distributed.Draining
import Fracture.Distributed.Positions
import Fracture.Distributed.Rollback
import Fracture.Election.Standby
import Fracture.Election.Standoff
import Fracture.Engine.Coordinator
import Fracture.Engine.Independence
import Fracture.Exchange.Heartbeats
import Fracture.Gguf.Alignment
import Fracture.Gguf.Conversion
import Fracture.Gguf.Fields
import Fracture.Layers.Feasibility
import Fracture.Layers.Memory
import Fracture.PagedCache.Exhaustion
import Fracture.Protocol.Polling
import Fracture.Protocol.Tensor
import Fracture.Registry.Idle
import Fracture.Registry.Promotion
import Fracture.Scheduler.Admission
import Fracture.Scheduler.Alignment
import Fracture.Scheduler.Blocks
import Fracture.Scheduler.Disconnect
import Fracture.TurboQuant.Append
import Fracture.TurboQuant.Attention
import Fracture.TurboQuant.Setup
