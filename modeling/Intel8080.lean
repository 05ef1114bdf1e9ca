import Intel8080.Device.Probe
import Intel8080.Main
import Intel8080.Proofs.Arithmetic.Decimal
import Intel8080.Proofs.CommandLine.Order
import Intel8080.Proofs.Cpm.Image
import Intel8080.Proofs.Cpm.Strict
import Intel8080.Proofs.Cpm.SystemCall
import Intel8080.Proofs.Cpm.Transcript
import Intel8080.Proofs.Interrupt.Entry
import Intel8080.Proofs.Interrupt.Injection
import Intel8080.Proofs.Interrupt.Transparency
import Intel8080.Proofs.Listing
import Intel8080.Proofs.Machine.Accounting
import Intel8080.Proofs.Machine.Arithmetic
import Intel8080.Proofs.Machine.Comparison
import Intel8080.Proofs.Machine.Halting
import Intel8080.Proofs.Machine.LongArithmetic
import Intel8080.Proofs.Machine.LongShift
import Intel8080.Proofs.Machine.Nesting
import Intel8080.Proofs.Machine.Status
import Intel8080.Proofs.Machine.Stream
