import LawNexus.Applicability.Algebra
import LawNexus.Binding.Order
import LawNexus.Calendar.Ordinal
import LawNexus.Canon.Refusal
import LawNexus.CleanedWire.Blocks
import LawNexus.CleanedWire.Canonical
import LawNexus.CleanedWire.Exact
import LawNexus.CleanedWire.Seals
import LawNexus.Closure.Exact
import LawNexus.Decode.ActOrder
import LawNexus.Decode.Capture
import LawNexus.Decode.Memo
import LawNexus.Decode.Stable
import LawNexus.Forest.Tree
import LawNexus.Groups.Agreement
import LawNexus.Markers.Candidates
import LawNexus.Markers.UnitStyle
import LawNexus.Membership.Ast
import LawNexus.Membership.Parents
import LawNexus.Membership.Visits
import LawNexus.Ontology.ArticleTexts
import LawNexus.Ontology.Complete
import LawNexus.Ontology.EditionAst
import LawNexus.Ontology.FileNames
import LawNexus.Ontology.Growth
import LawNexus.Ontology.Heal
import LawNexus.Ontology.Nearest
import LawNexus.Ontology.RegistryOrder
import LawNexus.Ontology.RegistryRoundTrip
import LawNexus.Ontology.RegistryTables
import LawNexus.Ontology.WriteSet
import LawNexus.Output.Accepted
import LawNexus.Promote.ExactlyOnce
import LawNexus.Publish.Sticky
import LawNexus.Reader.Addressed
import LawNexus.Reader.Endless
import LawNexus.Reader.Verified
import LawNexus.Replay.Records
import LawNexus.Semantic.Actors
import LawNexus.SourcePackage.Overflow
import LawNexus.SourcePackage.RoundTrip
import LawNexus.Work.NoLostUpdate
