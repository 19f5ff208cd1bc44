import CrossReference.Annotation.Anchor
import CrossReference.Annotation.Splice
import CrossReference.Batch.Progress
import CrossReference.Failure
import CrossReference.Index.Operation
import CrossReference.Interchange.Lemmas
import CrossReference.Json.Reader
import CrossReference.Json.Writer
import CrossReference.Log
import CrossReference.OrderedMap.Collect
import CrossReference.OrderedMap.Lemmas
import CrossReference.Sample
import CrossReference.Settings.Document
import CrossReference.Proofs.Accounting
import CrossReference.Proofs.Attribution
import CrossReference.Proofs.BatchOrder
import CrossReference.Proofs.BatchRefresh
import CrossReference.Proofs.Blocking
import CrossReference.Proofs.Comments
import CrossReference.Proofs.Consistency
import CrossReference.Proofs.Constructors
import CrossReference.Proofs.Containment
import CrossReference.Proofs.ContainmentSweep
import CrossReference.Proofs.Decoding
import CrossReference.Proofs.Filing
import CrossReference.Proofs.Findings
import CrossReference.Proofs.Growth
import CrossReference.Proofs.InPlace
import CrossReference.Proofs.Indexing
import CrossReference.Proofs.Insertions
import CrossReference.Proofs.Interleaving
import CrossReference.Proofs.JsonText
import CrossReference.Proofs.LastEntries
import CrossReference.Proofs.Membership
import CrossReference.Proofs.NonInterference
import CrossReference.Proofs.Ownership
import CrossReference.Proofs.Publication
import CrossReference.Proofs.Rebuild
import CrossReference.Proofs.Renaming
import CrossReference.Proofs.Resolution
import CrossReference.Proofs.Retraction
import CrossReference.Proofs.Runs
import CrossReference.Proofs.Sweep
import CrossReference.Proofs.Tables
import CrossReference.Proofs.Walks
import CrossReference.Proofs.Anchoring
import CrossReference.Proofs.AnchorInstructions
import CrossReference.Proofs.Pieces
import CrossReference.Proofs.Locating
