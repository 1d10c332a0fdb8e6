import PocketMips.Main
import PocketMips.Web
import PocketMips.Proofs.Alu
import PocketMips.Proofs.Instruction
import PocketMips.Proofs.Memory
import PocketMips.Proofs.View
import PocketMips.Proofs.Refinement
import PocketMips.Proofs.Agreement
import PocketMips.Proofs.Load
import PocketMips.Proofs.Digits
import PocketMips.Proofs.Listing
import PocketMips.Proofs.RoundTrip
import PocketMips.Proofs.Transfer
import PocketMips.Proofs.Reference
import PocketMips.Proofs.Disassembly
import PocketMips.Proofs.Extent
import PocketMips.Proofs.Calls
import PocketMips.Proofs.History
import PocketMips.Proofs.Following
import PocketMips.Proofs.Exclusion
import PocketMips.Proofs.Worker
import PocketMips.Proofs.Handover
import PocketMips.Proofs.Schedule
import PocketMips.Proofs.Watching
import PocketMips.Proofs.Step
import PocketMips.Proofs.Snapshot
import PocketMips.Proofs.Reset
import PocketMips.Proofs.Refusal
import PocketMips.Proofs.Accounts
import PocketMips.Proofs.Labels
import PocketMips.Proofs.Installation
import PocketMips.Proofs.Rejection
import PocketMips.Proofs.Positions
import PocketMips.Proofs.Alignment
import PocketMips.Proofs.InPlace
import PocketMips.Proofs.Faults
import PocketMips.Proofs.Overlay
import PocketMips.Proofs.Requests
import PocketMips.Proofs.Batch
import PocketMips.Proofs.Drivers
import PocketMips.Proofs.Protocol
import PocketMips.Proofs.Literal
import PocketMips.Proofs.Numeral
import PocketMips.Proofs.Splitting
import PocketMips.Proofs.MemoryOperand
import PocketMips.Proofs.Case
import PocketMips.Proofs.Layout
import PocketMips.Proofs.Concatenation
import PocketMips.Proofs.Relocation
import PocketMips.Proofs.CodeGrammar
import PocketMips.Proofs.StraightLine
import PocketMips.Proofs.RegisterFile
import PocketMips.Proofs.Wrapping
import PocketMips.Proofs.Bystanders
import PocketMips.Proofs.Residue
import PocketMips.Proofs.Window
