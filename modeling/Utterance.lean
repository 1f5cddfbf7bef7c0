import Utterance.Files.Tree
import Utterance.Main
import Utterance.Line.Tree
import Utterance.Proofs.Branches
import Utterance.Proofs.Groups
import Utterance.Proofs.Recursion
import Utterance.Proofs.References
import Utterance.Proofs.Termination
import Utterance.Proofs.Leaves
import Utterance.Proofs.Confluence
import Utterance.Proofs.Pattern
import Utterance.Proofs.Meaning
import Utterance.Proofs.Placeholders
import Utterance.Proofs.Conservation
import Utterance.Proofs.Nesting
import Utterance.Proofs.Emission
import Utterance.Proofs.SlotReports
import Utterance.Proofs.Refusal
import Utterance.Proofs.Joining
import Utterance.Proofs.Updates
import Utterance.Proofs.RoundTrip
import Utterance.Proofs.Phrases
import Utterance.Proofs.Invariants
import Utterance.Proofs.Names
import Utterance.Proofs.Usage
import Utterance.Proofs.Exports
import Utterance.Proofs.Places
import Utterance.Proofs.Actions
import Utterance.Proofs.Documents
import Utterance.Proofs.Agents
import Utterance.Proofs.Sorting
import Utterance.Proofs.WellFormed
import Utterance.Proofs.Locations
import Utterance.Proofs.AdHoc
import Utterance.Proofs.Builds
import Utterance.Proofs.Inlining
import Utterance.Proofs.Undefined
import Utterance.Proofs.Moving
import Utterance.Proofs.Unrelated
import Utterance.Proofs.Shapes
import Utterance.Proofs.Rules
import Utterance.Proofs.BadLines
import Utterance.Proofs.Words
import Utterance.Proofs.Tables
import Utterance.Proofs.Listing
