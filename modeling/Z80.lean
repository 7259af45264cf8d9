import Z80.Hex
import Z80.Bus.Board
import Z80.Bus.Probe
import Z80.Memory.Banked
import Z80.Registers.Operand
import Z80.Alu
import Z80.Script
import Z80.Instruction
import Z80.Instruction.Opcode
import Z80.Notice
import Z80.Cpu.Execute
import Z80.Machine
import Z80.Snapshot
import Z80.Query
import Z80.Instruction.Written
import Z80.Json.State
import Z80.Main
import Z80.Proofs.Slicing
import Z80.Proofs.Conservation
import Z80.Proofs.Acceptance
import Z80.Proofs.Viewing
import Z80.Proofs.Chains
import Z80.Proofs.Disassembly
import Z80.Proofs.Swapping
import Z80.Proofs.Answers
import Z80.Proofs.Redirection
import Z80.Proofs.Banking
import Z80.Proofs.Writing
import Z80.Proofs.Yielding
import Z80.Proofs.Timing
import Z80.Proofs.Progress
import Z80.Proofs.Sending
import Z80.Proofs.Printing
import Z80.Proofs.Frame
import Z80.Proofs.Interrupts
import Z80.Proofs.Paging
import Z80.Proofs.Guarding
import Z80.Proofs.Indexing
import Z80.Proofs.Spelling
import Z80.Proofs.Faultless
import Z80.Proofs.Board
import Z80.Proofs.Repeating
import Z80.Proofs.Copying
import Z80.Proofs.Searching
import Z80.Proofs.Transferring
import Z80.Proofs.Carrying
import Z80.Proofs.Decimal
import Z80.Proofs.Binary
import Z80.Proofs.Computed
import Z80.Proofs.Restoring
import Z80.Proofs.Resuming
import Z80.Proofs.Reporting
import Z80.Proofs.Limiting
import Z80.Proofs.Measuring
import Z80.Proofs.Trapping
import Z80.Proofs.Assembling
import Z80.Proofs.Identifying
import Z80.Proofs.Storing
import Z80.Proofs.Stacking
import Z80.Proofs.Selecting
