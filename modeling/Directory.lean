import Directory.Main
import Directory.Proofs.AtomicWrites
import Directory.Proofs.CandidateRecord
import Directory.Proofs.Coherence
import Directory.Proofs.ComponentEdges
import Directory.Proofs.Documents
import Directory.Proofs.EntryDocuments
import Directory.Proofs.Estimates
import Directory.Proofs.FilterAlgebra
import Directory.Proofs.FilterText
import Directory.Proofs.IndexAnswers
import Directory.Proofs.IndexIndependence
import Directory.Proofs.IndexNames
import Directory.Proofs.IndexQueries
import Directory.Proofs.Inheritance
import Directory.Proofs.Interleaving
import Directory.Proofs.LeafCandidates
import Directory.Proofs.MemoValues
import Directory.Proofs.Normalization
import Directory.Proofs.PatternCuts
import Directory.Proofs.PatternExpression
import Directory.Proofs.PlanTree
import Directory.Proofs.RequestWays
import Directory.Proofs.SchemaLoading
import Directory.Proofs.SearchSessions
import Directory.Proofs.SizeLimit
import Directory.Proofs.SnapshotCursors
import Directory.Text.Quoted
import Directory.Value.Memo
