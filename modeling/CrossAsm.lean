import CrossAsm.Assembly
import CrossAsm.CommandLine.Session
import CrossAsm.Main
import CrossAsm.Proofs.Meaning
import CrossAsm.Proofs.Stack
import CrossAsm.Proofs.Reading
import CrossAsm.Proofs.Scanning
import CrossAsm.Proofs.Emission
import CrossAsm.Proofs.InternalErrors
import CrossAsm.Proofs.TwoPass
import CrossAsm.Proofs.Bodies
import CrossAsm.Proofs.Walk
import CrossAsm.Proofs.Patching
import CrossAsm.Proofs.Rounds
import CrossAsm.Proofs.Acceptance
import CrossAsm.Proofs.Blocks
import CrossAsm.Proofs.Image
import CrossAsm.Proofs.Refinement
import CrossAsm.Proofs.Disk.Allocation
import CrossAsm.Proofs.Disk.Chains
import CrossAsm.Proofs.Disk.Directory
import CrossAsm.Proofs.Disk.History
import CrossAsm.Proofs.Parsing.Grammar
import CrossAsm.Proofs.Parsing.Passage
import CrossAsm.Proofs.Parsing.Soundness
import CrossAsm.Proofs.Parsing.Lines
import CrossAsm.Proofs.Likeness
import CrossAsm.Proofs.Parsing.InStep
import CrossAsm.Proofs.Parsing.Locality
import CrossAsm.Proofs.Parsing.Accounting
import CrossAsm.Proofs.Parsing.Completeness
import CrossAsm.Proofs.InstructionSet
import CrossAsm.Proofs.Parsing.Writing
import CrossAsm.Proofs.Agreement
import CrossAsm.Proofs.Rescanning
import CrossAsm.Proofs.Relisting
import CrossAsm.Proofs.Places
import CrossAsm.Proofs.Tiling
import CrossAsm.Proofs.Parsing.Placing
import CrossAsm.Proofs.Pointing
import CrossAsm.Proofs.SameTokens
import CrossAsm.Proofs.Spacing
import CrossAsm.Proofs.Overwriting
import CrossAsm.Proofs.ProgramFile
import CrossAsm.Proofs.Storing
import CrossAsm.Proofs.Confinement
import CrossAsm.Proofs.Chaining
import CrossAsm.Proofs.Decoding
import CrossAsm.Proofs.Evaluation
import CrossAsm.Proofs.Coalescing
import CrossAsm.Proofs.Deferral
import CrossAsm.Proofs.LongestMatch
import CrossAsm.Proofs.Numerals
import CrossAsm.Proofs.Printing
import CrossAsm.Proofs.OperandText
import CrossAsm.Proofs.Parsing.Expressions
import CrossAsm.Proofs.TextRows
import CrossAsm.Proofs.LoaderData
import CrossAsm.Proofs.FullListing
import CrossAsm.Proofs.Reservations
import CrossAsm.Proofs.Reordering
import CrossAsm.Proofs.Utf8
import CrossAsm.Proofs.FirstDefinition
import CrossAsm.Proofs.LineNumbers
