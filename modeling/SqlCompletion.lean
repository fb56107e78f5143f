import SqlCompletion.Engine.Basic
import SqlCompletion.Json.Document
import SqlCompletion.Scanner.Script
import SqlCompletion.Proofs.Reading
import SqlCompletion.Proofs.Tiling
import SqlCompletion.Proofs.Derivation
import SqlCompletion.Proofs.Ways
import SqlCompletion.Proofs.Plan
import SqlCompletion.Proofs.Layer
import SqlCompletion.Proofs.Gathering
import SqlCompletion.Proofs.Exactness
import SqlCompletion.Proofs.Collection
import SqlCompletion.Proofs.Transparency
import SqlCompletion.Proofs.Viability
import SqlCompletion.Proofs.Locality
import SqlCompletion.Proofs.Recovery
import SqlCompletion.Proofs.Isolation
import SqlCompletion.Proofs.Wording
import SqlCompletion.Proofs.Acceptance
import SqlCompletion.Proofs.Watch
import SqlCompletion.Proofs.LeftCorners
import SqlCompletion.Proofs.Tasks
import SqlCompletion.Proofs.Chains
import SqlCompletion.Proofs.Depth
import SqlCompletion.Proofs.TableReading
import SqlCompletion.Proofs.Naming
import SqlCompletion.Proofs.Renaming
import SqlCompletion.Proofs.Touching
import SqlCompletion.Proofs.Quoting
import SqlCompletion.Proofs.TableCopies
import SqlCompletion.Proofs.ClauseReading
import SqlCompletion.Proofs.Provenance
import SqlCompletion.Proofs.Folding
import SqlCompletion.Proofs.Versions
import SqlCompletion.Proofs.Documents
import SqlCompletion.Proofs.TableGrammar
import SqlCompletion.Proofs.TableRecognition
import SqlCompletion.Proofs.Withholding
import SqlCompletion.Proofs.ScopeLevels
import SqlCompletion.Proofs.AlteredTable
import SqlCompletion.Proofs.Nesting
import SqlCompletion.Proofs.Confinement
import SqlCompletion.Proofs.JoinConditions
import SqlCompletion.Proofs.DerivedTables
import SqlCompletion.Proofs.TableGroups
import SqlCompletion.Proofs.Extractor
import SqlCompletion.Proofs.OpenRules
import SqlCompletion.Proofs.ClauseCut
import SqlCompletion.Proofs.StatementSpans
import SqlCompletion.Proofs.VersionOrder
import SqlCompletion.Proofs.KeywordPhrases
import SqlCompletion.Proofs.StringAliases
import SqlCompletion.Proofs.Unended
import SqlCompletion.Proofs.ClosedGrammars
import SqlCompletion.Proofs.ScannerMoves
