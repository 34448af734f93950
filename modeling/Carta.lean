import Carta.Main
import Carta.Sink
import Carta.Proofs.Outcome
import Carta.Proofs.SymbolUse
import Carta.Proofs.MapfileParts
import Carta.Proofs.SymbolSection
import Carta.Proofs.Lines
import Carta.Proofs.Nesting
import Carta.Proofs.SoundEntries
import Carta.Proofs.ConfinedText
import Carta.Proofs.SoundWriters
import Carta.Proofs.BlockText
import Carta.Proofs.LayerErrors
import Carta.Proofs.LayerNeeds
import Carta.Proofs.Requirements
import Carta.Proofs.Trees
import Carta.Proofs.Routes
import Carta.Proofs.Replacement
import Carta.Proofs.Encoding
import Carta.Proofs.References
import Carta.Proofs.WrittenMarkup
import Carta.Proofs.Serialization
import Carta.Proofs.Paths
import Carta.Proofs.Directories
import Carta.Proofs.Collection
import Carta.Proofs.Growth
import Carta.Proofs.Tasks
import Carta.Proofs.CommandLine
import Carta.Proofs.Runs
import Carta.Proofs.Plans
import Carta.Proofs.Completion
import Carta.Proofs.Orders
import Carta.Proofs.KeptTags
import Carta.Proofs.Truncation
import Carta.Proofs.Lookups
import Carta.Proofs.UnknownContent
import Carta.Proofs.EntryTokens
import Carta.Proofs.AlikeEntries
import Carta.Proofs.ValueWords
import Carta.Proofs.MapValues
import Carta.Proofs.Skeleton
import Carta.Proofs.Misreading
import Carta.Proofs.SourceWords
import Carta.Proofs.QuotedValues
import Carta.Proofs.ArchiveEntries
import Carta.Proofs.WrittenArchives
import Carta.Proofs.ArchivedProjects
import Carta.Proofs.RemadeDirectories
import Carta.Proofs.SettledTasks
import Carta.Proofs.FoundAgain
import Carta.Proofs.Reruns
import Carta.Proofs.ConnectionReading
import Carta.Proofs.LastSettings
import Carta.Proofs.ExactDecoding
import Carta.Proofs.LostBlanks
import Carta.Proofs.TextRuns
import Carta.Proofs.DividedText
import Carta.Proofs.TrimmedTrees
import Carta.Proofs.SectionOrText
import Carta.Proofs.Descriptors
import Carta.Proofs.ClassBlocks
import Carta.Proofs.MirroredPlans
import Carta.Proofs.ReadingOrders
import Carta.Proofs.DistinctKeys
import Carta.Proofs.AttributeOrder
import Carta.Proofs.Sinks
import Carta.Proofs.MissingInputs
import Carta.Proofs.DirectoryChecksums
import Carta.Proofs.DamagedArchives
import Carta.Proofs.DocumentOrder
import Carta.Proofs.ByteNumerals
import Carta.Proofs.RemoteLayers
import Carta.Proofs.ProjectionLines
import Carta.Proofs.OpenElements
