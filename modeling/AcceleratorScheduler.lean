import AcceleratorScheduler.Main
import AcceleratorScheduler.Proofs.Answers
import AcceleratorScheduler.Proofs.Ring.Queue
import AcceleratorScheduler.Proofs.Arbiter.Contents
import AcceleratorScheduler.Proofs.Controller.Switching
import AcceleratorScheduler.Proofs.Controller.Service
import AcceleratorScheduler.Proofs.Controller.Draining
import AcceleratorScheduler.Proofs.Controller.Trace
import AcceleratorScheduler.Proofs.Controller.PostedSwitch
import AcceleratorScheduler.Proofs.Arbiter.Requests
import AcceleratorScheduler.Proofs.Arbiter.Ledger
import AcceleratorScheduler.Proofs.Arbiter.Mappings
import AcceleratorScheduler.Proofs.Domain.Requests
import AcceleratorScheduler.Proofs.Controller.Systems
import AcceleratorScheduler.Proofs.Controller.Soundness
import AcceleratorScheduler.Proofs.Controller.Agreement
import AcceleratorScheduler.Proofs.Arbiter.Departure
import AcceleratorScheduler.Proofs.Arbiter.Roster
import AcceleratorScheduler.Proofs.Arbiter.Holder
import AcceleratorScheduler.Proofs.Arbiter.Custody
import AcceleratorScheduler.Proofs.Arbiter.Occupancy
import AcceleratorScheduler.Proofs.Ring.Format
import AcceleratorScheduler.Proofs.Controller.Operations
import AcceleratorScheduler.Proofs.Controller.Isolation
import AcceleratorScheduler.Proofs.Domain.Naming
import AcceleratorScheduler.Proofs.Domain.Holdings
import AcceleratorScheduler.Proofs.Ring.Fifo
import AcceleratorScheduler.Proofs.Domain.SubDomains
import AcceleratorScheduler.Proofs.EventLog.Backlog
import AcceleratorScheduler.Proofs.EventLog.Indices
import AcceleratorScheduler.Proofs.Controller.Chronicle
import AcceleratorScheduler.Proofs.Device.Deployments
import AcceleratorScheduler.Proofs.Device.Journal
import AcceleratorScheduler.Proofs.Arbiter.Regions
import AcceleratorScheduler.Proofs.Arbiter.Closing
import AcceleratorScheduler.Proofs.Domain.Upkeep
import AcceleratorScheduler.Proofs.Controller.Vitals
import AcceleratorScheduler.Proofs.Controller.Upkeep
import AcceleratorScheduler.Proofs.Controller.Ending
import AcceleratorScheduler.Proofs.Device.Relays
import AcceleratorScheduler.Proofs.Device.Finality
import AcceleratorScheduler.Proofs.Device.Refusals
import AcceleratorScheduler.Proofs.Controller.Turns
import AcceleratorScheduler.Proofs.Device.Lifecycle
import AcceleratorScheduler.Proofs.Shared.Mediation
import AcceleratorScheduler.Proofs.Arbiter.Shielding
import AcceleratorScheduler.Proofs.Controller.Mirroring
import AcceleratorScheduler.Proofs.Slot.Requests
import AcceleratorScheduler.Proofs.Arbiter.Writers
import AcceleratorScheduler.Proofs.Controller.Orphans
import AcceleratorScheduler.Proofs.Device.Restarting
import AcceleratorScheduler.Proofs.Arbiter.Revocation
import AcceleratorScheduler.Proofs.Arbiter.Atomicity
import AcceleratorScheduler.Proofs.Domain.Additions
import AcceleratorScheduler.Proofs.Arbiter.Openings
import AcceleratorScheduler.Proofs.Arbiter.Sizes
import AcceleratorScheduler.Proofs.Slot.Records
import AcceleratorScheduler.Proofs.Ring.Hostile
import AcceleratorScheduler.Proofs.Arbiter.Coverage
import AcceleratorScheduler.Proofs.Demo.Script
import AcceleratorScheduler.Proofs.CommandLine.Agreement
