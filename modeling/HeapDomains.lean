import HeapDomains.Allocator.Thread
import HeapDomains.Bench
import HeapDomains.CallPath.Json
import HeapDomains.Command.Directory
import HeapDomains.Config.Json
import HeapDomains.Main
import HeapDomains.Facts.Json
import HeapDomains.Program.Json
import HeapDomains.Proofs.Flag.Soundness
import HeapDomains.Proofs.Flag.Exemption
import HeapDomains.Proofs.Flag.Exactness
import HeapDomains.Proofs.CallPath.Calls
import HeapDomains.Proofs.CallPath.Search
import HeapDomains.Proofs.Flag.Partition
import HeapDomains.Proofs.Flag.Idle
import HeapDomains.Proofs.Flag.EntryReads
import HeapDomains.Proofs.Flag.Residue
import HeapDomains.Proofs.SameContent
import HeapDomains.Proofs.Growth
import HeapDomains.Proofs.Allocator.Placement
import HeapDomains.Proofs.Allocator.Routing
import HeapDomains.Proofs.Allocator.Claims
import HeapDomains.Proofs.Allocator.Window
import HeapDomains.Proofs.Allocator.Copy
import HeapDomains.Proofs.StackSlots
import HeapDomains.Proofs.Provenance
import HeapDomains.Proofs.Consistency
import HeapDomains.Proofs.Json.RoundTrip
import HeapDomains.Proofs.Config.RoundTrip
import HeapDomains.Proofs.Allocator.Filling
import HeapDomains.Proofs.Allocator.Refusal
import HeapDomains.Proofs.Allocator.Resize
import HeapDomains.Proofs.Program.Acceptance
import HeapDomains.Proofs.Program.Index
import HeapDomains.Proofs.Hardening
import HeapDomains.Proofs.Bench.Summary
import HeapDomains.Proofs.CallPath.Arena
import HeapDomains.Proofs.CallPath.RecordSteps
import HeapDomains.Proofs.Allocator.Addresses
