import ProofProse.Text.Letter
import ProofProse.Text.Blank
import ProofProse.Text.Transducer
import ProofProse.Text.Search
import ProofProse.Text.Quoted
import ProofProse.Source
import ProofProse.Command.Table
import ProofProse.Environment
import ProofProse.Inclusion.Catalogue
import ProofProse.Encoding
import ProofProse.Failure
import ProofProse.Stream.Group
import ProofProse.Stream.ParameterText
import ProofProse.Stream.Quantity
import ProofProse.Stream.Region
import ProofProse.Warning
import ProofProse.Prose
import ProofProse.Options
import ProofProse.Inclusion.Library
import ProofProse.Extraction
import ProofProse.Batch
import ProofProse.CommandLine
import ProofProse.Main
import ProofProse.Proofs.Computation
import ProofProse.Proofs.Course
import ProofProse.Proofs.Course.Reading
import ProofProse.Proofs.Course.Round
import ProofProse.Proofs.Flow
import ProofProse.Proofs.Span
import ProofProse.Proofs.Limits
import ProofProse.Proofs.Reading
import ProofProse.Proofs.Taking
import ProofProse.Proofs.Nested
import ProofProse.Proofs.Abandon
import ProofProse.Proofs.Clean
import ProofProse.Proofs.InStep
import ProofProse.Proofs.InStep.Defining
import ProofProse.Proofs.InStep.Round
import ProofProse.Proofs.Visits
import ProofProse.Proofs.InStep.Run
import ProofProse.Proofs.Depth
import ProofProse.Proofs.Respect
import ProofProse.Proofs.Respect.Reading
import ProofProse.Proofs.Respect.Round
import ProofProse.Proofs.Leftover
import ProofProse.Proofs.Consuming
import ProofProse.Proofs.Ending
import ProofProse.Proofs.Flat
import ProofProse.Proofs.Finishing
import ProofProse.Proofs.Undefined
import ProofProse.Proofs.Renaming
import ProofProse.Proofs.Circular
import ProofProse.Proofs.Tape
import ProofProse.Proofs.Branch
import ProofProse.Proofs.Order
import ProofProse.Proofs.Protection
import ProofProse.Proofs.Opening
import ProofProse.Proofs.Line
import ProofProse.Proofs.Resume
import ProofProse.Proofs.Edge
import ProofProse.Proofs.Lockstep
import ProofProse.Proofs.Inside
import ProofProse.Proofs.Tree
import ProofProse.Proofs.Loop
import ProofProse.Proofs.Package
import ProofProse.Proofs.Prepared
import ProofProse.Proofs.Lexeme
import ProofProse.Proofs.Joint
import ProofProse.Proofs.Comment
import ProofProse.Proofs.Gap
import ProofProse.Proofs.Nesting
import ProofProse.Proofs.Body
import ProofProse.Proofs.Decoding
import ProofProse.Proofs.Component
import ProofProse.Proofs.Trail
import ProofProse.Proofs.Collected
import ProofProse.Proofs.Outputs
import ProofProse.Proofs.Sharing
import ProofProse.Proofs.Folders
import ProofProse.Proofs.Replacing
import ProofProse.Proofs.Alike
import ProofProse.Proofs.Undisturbed
import ProofProse.Proofs.Schedule
import ProofProse.Proofs.Misfit
import ProofProse.Proofs.Operand
import ProofProse.Proofs.Formula
import ProofProse.Proofs.Call
import ProofProse.Proofs.Argument
import ProofProse.Proofs.Runaway
import ProofProse.Proofs.Title
import ProofProse.Proofs.Delimiter
import ProofProse.Proofs.Choice
import ProofProse.Proofs.Condition
import ProofProse.Proofs.Definedness
import ProofProse.Proofs.Naming
import ProofProse.Proofs.Following
import ProofProse.Proofs.Spelling
import ProofProse.Proofs.FileName
import ProofProse.Proofs.InlineVerbatim
import ProofProse.Proofs.Passage
import ProofProse.Proofs.Verbatim
import ProofProse.Proofs.Flag
import ProofProse.Proofs.FlagCommand
import ProofProse.Proofs.Words
import ProofProse.Proofs.PlainProse
import ProofProse.Proofs.Marker
import ProofProse.Proofs.Growth
import ProofProse.Proofs.Work
import ProofProse.Proofs.Pool
import ProofProse.Proofs.Lasting
import ProofProse.Proofs.Turns
import ProofProse.Proofs.Finished
import ProofProse.Proofs.Loss
import ProofProse.Proofs.Incremental
import ProofProse.Proofs.Folding
import ProofProse.Proofs.FolderWalk
import ProofProse.Proofs.CorrectionTable
import ProofProse.Proofs.Dimension
