import OpenTorque.Core.Transition
import OpenTorque.Core.Assoc
import OpenTorque.Core.Decoder
import OpenTorque.Core.Number
import OpenTorque.Core.Mirror
import OpenTorque.Dis.Reader
import OpenTorque.Dis.Format
import OpenTorque.Dis.Writer
import OpenTorque.Dis.RoundTrip
import OpenTorque.HA.Lease
import OpenTorque.Server.Job
import OpenTorque.Server.Node
import OpenTorque.Server.Queue
import OpenTorque.Server.Config
import OpenTorque.Server.State
import OpenTorque.Server.Admission
import OpenTorque.Server.Submission
import OpenTorque.Server.Control
import OpenTorque.Server.Operation
import OpenTorque.Server.Status
import OpenTorque.Server.Step
import OpenTorque.Server.Effect
import OpenTorque.Server.JobIds
import OpenTorque.Server.Assignment
import OpenTorque.Server.Document
import OpenTorque.Server.Recovery
import OpenTorque.Server.Lifecycle
import OpenTorque.Server.Deferral
import OpenTorque.Server.Frame
import OpenTorque.Server.Policy
import OpenTorque.Server.Occupancy
import OpenTorque.Server.Limits
import OpenTorque.Server.Routing
import OpenTorque.Server.RunSections
import OpenTorque.Server.Connections
import OpenTorque.HA.Takeover
import OpenTorque.Sched.Placement
import OpenTorque.Sched.Constraints
import OpenTorque.Sched.Loop
import OpenTorque.Sched.Capacity
import OpenTorque.Sched.Exclusive
import OpenTorque.Sched.QueueLimits
import OpenTorque.Cec.Controller
import OpenTorque.Cec.Fleet
import OpenTorque.Cec.Ownership
import OpenTorque.Cec.Accounting
import OpenTorque.Cec.ScaleIn
import OpenTorque.Cec.ScaleOut
import OpenTorque.Cec.Deregistration
import OpenTorque.Mom.Daemon
import OpenTorque.Mom.Cluster
import OpenTorque.Mom.Obituary
import OpenTorque.Mom.AtMostOnce
import OpenTorque.Core.LockOrder
import OpenTorque.Dis.Connection
import OpenTorque.Server.Locks
import OpenTorque.Cec.AliveJobs
import OpenTorque.Core.Records
import OpenTorque.Server.QueueDocument
import OpenTorque.Server.QueuePersistence
import OpenTorque.Server.Backends
import OpenTorque.Core.Markup
import OpenTorque.Server.ConfigDocument
import OpenTorque.Server.NodeInventory
import OpenTorque.Server.Release
import OpenTorque.Server.ArraySpec
import OpenTorque.Server.SubmitLimits
import OpenTorque.Server.Arrays
import OpenTorque.Server.Deletion
import OpenTorque.Server.Reconciliation
import OpenTorque.Server.Gates
import OpenTorque.Server.ResourceIntervals
import OpenTorque.Server.Dependencies
import OpenTorque.Core.LastWins
import OpenTorque.Server.JobDocument
import OpenTorque.Core.Rotation
import OpenTorque.Sched.Cursor
import OpenTorque.Sched.Iteration
import OpenTorque.Core.Sorting
import OpenTorque.Sched.JobOrder
import OpenTorque.Sched.Choice
import OpenTorque.Sched.MultiNode
import OpenTorque.Sched.Trace
import OpenTorque.Sched.Demand
import OpenTorque.Sched.Requests
import OpenTorque.Server.NodeCalls
