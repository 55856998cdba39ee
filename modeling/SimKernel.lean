import SimKernel.Bytes.Text
import SimKernel.Json.Forms
import SimKernel.Simulator.Run
import SimKernel.Time.Duration
import SimKernel.Timer
import SimKernel.Trickle.Store
import SimKernel.Wire.Formats
import SimKernel.Wire.Steps
import SimKernel.Proofs.Agenda.Occupancy
import SimKernel.Proofs.Agenda.Priority
import SimKernel.Proofs.Buffer.Amortized
import SimKernel.Proofs.Buffer.Bounds
import SimKernel.Proofs.Buffer.Values
import SimKernel.Proofs.Json.Configurations
import SimKernel.Proofs.Packet.Reassembly
import SimKernel.Proofs.Packet.Refusal
import SimKernel.Proofs.Packet.Stacking
import SimKernel.Proofs.Packet.TagMaps
import SimKernel.Proofs.Simulator.Driving
import SimKernel.Proofs.Simulator.Endings
import SimKernel.Proofs.Simulator.Order
import SimKernel.Proofs.Simulator.Refinement
import SimKernel.Proofs.Simulator.StopTime
import SimKernel.Proofs.Simulator.Ticks
import SimKernel.Proofs.Simulator.Traceless
import SimKernel.Proofs.Time.Durations
import SimKernel.Proofs.Time.Errors
import SimKernel.Proofs.Timer.Pauses
import SimKernel.Proofs.Timer.Programs
import SimKernel.Proofs.Timer.Safety
import SimKernel.Proofs.Trickle.Firing
import SimKernel.Proofs.Trickle.Lengths
import SimKernel.Proofs.Trickle.Programs
import SimKernel.Proofs.Trickle.Silence
import SimKernel.Proofs.Wire.Chaining
import SimKernel.Proofs.Wire.Corruption
import SimKernel.Proofs.Wire.Fields
import SimKernel.Proofs.Wire.Marks
