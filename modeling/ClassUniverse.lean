import ClassUniverse.Archive.Packing
import ClassUniverse.Main
import ClassUniverse.Proofs.CallGraph.Reachability
import ClassUniverse.Proofs.Hierarchy.Agreement
import ClassUniverse.Proofs.Hierarchy.Declared
import ClassUniverse.Proofs.Numbering.Growth
import ClassUniverse.Proofs.Resolution.Answers
import ClassUniverse.Proofs.Resolution.Outcome
import ClassUniverse.Proofs.Scene.Loaded
import ClassUniverse.Proofs.Universe.Coherence
import ClassUniverse.Proofs.Universe.Changes
import ClassUniverse.Proofs.Workspace.Upkeep
import ClassUniverse.Proofs.Workspace.SideEffects
import ClassUniverse.Proofs.Resolution.Links
import ClassUniverse.Proofs.Hierarchy.Mirrors
import ClassUniverse.Proofs.Workspace.Hierarchies
import ClassUniverse.Proofs.ClassFile.Image
import ClassUniverse.Proofs.ClassFile.Written
import ClassUniverse.Proofs.ClassFile.Pool
import ClassUniverse.Proofs.ClassFile.RoundTrip
import ClassUniverse.Proofs.Resolution.Order
import ClassUniverse.Proofs.ClassPath.Histories
import ClassUniverse.Proofs.Workspace.Reachable
import ClassUniverse.Proofs.Name.Quoting
import ClassUniverse.Proofs.Resolution.Acyclic
import ClassUniverse.Proofs.Scene.EntryPoints
import ClassUniverse.Proofs.Universe.MemberNumbers
import ClassUniverse.Proofs.Universe.Signatures
import ClassUniverse.Proofs.ClassPath.Repeats
import ClassUniverse.Proofs.Manifest.Image
import ClassUniverse.Proofs.Manifest.Plain
import ClassUniverse.Proofs.Manifest.Reading
import ClassUniverse.Proofs.Scene.DynamicClasses
import ClassUniverse.Proofs.Manifest.RoundTrip
import ClassUniverse.Proofs.CallGraph.Callees
import ClassUniverse.Proofs.Hierarchy.Subclasses
import ClassUniverse.Proofs.Numbering.Indexed
import ClassUniverse.Proofs.Numbering.Handles
import ClassUniverse.Proofs.Guarded.Parsers
import ClassUniverse.Proofs.ClassFile.Extent
import ClassUniverse.Proofs.Manifest.Truncation
import ClassUniverse.Proofs.Sdk.Highest
import ClassUniverse.Proofs.Sdk.Settled
import ClassUniverse.Proofs.ClassPath.Parts
import ClassUniverse.Proofs.Universe.Tallies
import ClassUniverse.Proofs.ClassPath.Index
import ClassUniverse.Proofs.Resolution.Supplied
import ClassUniverse.Proofs.Scene.Traces
import ClassUniverse.Proofs.Scene.BasicClasses
import ClassUniverse.Proofs.Signature
import ClassUniverse.Proofs.CallGraph.Growth
