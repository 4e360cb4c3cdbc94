import Sceau.Lib.Prog
import Sceau.Lib.Run
import Sceau.Lib.Pool
import Sceau.Tpm.Esapi
import Sceau.Tpm.Device
import Sceau.Tpm.Rules
import Sceau.Sealer.Code
import Sceau.Sealer.Objects
import Sceau.Fleet.Code
import Sceau.Enroll.Code
import Sceau.Enroll.Window
import Sceau.Enroll.Permits
import Sceau.Enroll.Gate
import Sceau.Fleet.Slot
import Sceau.Node.Code
import Sceau.Node.Commands
import Sceau.Fleet.Agreement
import Sceau.Vex.Presence
import Sceau.Cluster.World
import Sceau.Node.Rules
import Sceau.Cluster.Soundness
import Sceau.Node.Exact
import Sceau.Cluster.Nodes
import Sceau.Cluster.Availability
import Sceau.Node.Slot
import Sceau.Lib.Json
import Sceau.Sealer.Grammar
import Sceau.Vex.Files
import Sceau.Vex.Sboms
import Sceau.Vex.Run
import Sceau.Fleet.Cleanup
import Sceau.Node.Advertised
import Sceau.Fleet.Litter
import Sceau.Enroll.Sequence
import Sceau.Enroll.Erasure
import Sceau.Vex.Triage
import Sceau.Lib.JsonText
import Sceau.Vex.Fixpoint
import Sceau.Lib.Lock
import Sceau.Lib.Linear
import Sceau.Serve.Concurrent
import Sceau.Serve.Sequential
import Sceau.Lib.Outline
import Sceau.Serve.Socket
import Sceau.Lib.Grounded
import Sceau.Fleet.Custody
import Sceau.Vex.Rounds
import Sceau.Fleet.Reports
import Sceau.Node.Enrolling
import Sceau.Cluster.Enrollment
import Sceau.Cluster.Sealing
