import SqfCheck.Main
import SqfCheck.Files.Tree
import SqfCheck.Proofs.Entries
import SqfCheck.Proofs.Outcome
import SqfCheck.Proofs.Strict
import SqfCheck.Proofs.Stages
import SqfCheck.Proofs.Findings
import SqfCheck.Proofs.Binding
import SqfCheck.Proofs.Pieces
import SqfCheck.Proofs.Reading
import SqfCheck.Proofs.Declared
import SqfCheck.Proofs.Undefined
import SqfCheck.Proofs.Exits
import SqfCheck.Proofs.Finishing
import SqfCheck.Proofs.References
import SqfCheck.Proofs.Repairs
import SqfCheck.Proofs.Inclusions
import SqfCheck.Proofs.Independence
import SqfCheck.Proofs.Lockstep
import SqfCheck.Proofs.Layout
import SqfCheck.Proofs.Boundary
import SqfCheck.Proofs.Anchors
import SqfCheck.Proofs.Positions
import SqfCheck.Proofs.Gaps
import SqfCheck.Proofs.Records
import SqfCheck.Proofs.Hiding
import SqfCheck.Proofs.Effects
import SqfCheck.Proofs.Parentheses
import SqfCheck.Proofs.Acceptance
import SqfCheck.Proofs.JsonLines
import SqfCheck.Proofs.Recovery
import SqfCheck.Proofs.Delimiters
import SqfCheck.Proofs.Nesting
import SqfCheck.Proofs.Extents
import SqfCheck.Proofs.Arities
import SqfCheck.Proofs.Blanking
import SqfCheck.Proofs.MacroNames
import SqfCheck.Proofs.StringLiterals
import SqfCheck.Proofs.CommentTexts
import SqfCheck.Proofs.Commented
import SqfCheck.Proofs.Places
import SqfCheck.Proofs.Respacing
import SqfCheck.Proofs.Resolution
import SqfCheck.Proofs.Branches
import SqfCheck.Proofs.LongestMatch
import SqfCheck.Proofs.Provenance
import SqfCheck.Proofs.Messages
import SqfCheck.Proofs.TextLines
