import FetchClients.Main
import FetchClients.Proofs.Accounting
import FetchClients.Proofs.ClientNames
import FetchClients.Proofs.CommentUse
import FetchClients.Proofs.ConfigSearch
import FetchClients.Proofs.DryRuns
import FetchClients.Proofs.Exports
import FetchClients.Proofs.FileNames
import FetchClients.Proofs.SourceOrder
import FetchClients.Proofs.HeaderPaths
import FetchClients.Proofs.ImportSpellings
import FetchClients.Proofs.ImportTarget
import FetchClients.Proofs.Isolation
import FetchClients.Proofs.Ownership
import FetchClients.Proofs.Parameters
import FetchClients.Proofs.Reading.Declarations
import FetchClients.Proofs.Reading.Jsx
import FetchClients.Proofs.Relocation
import FetchClients.Proofs.Resolving
import FetchClients.Proofs.Rerun
import FetchClients.Proofs.Shapes
import FetchClients.Proofs.Sources
import FetchClients.Proofs.Untouched
import FetchClients.Proofs.Writing
import FetchClients.Proofs.FirstFault
import FetchClients.Proofs.MethodLiterals
import FetchClients.Proofs.Init
import FetchClients.Proofs.NearestConfig
import FetchClients.Proofs.RelativeImports
import FetchClients.Proofs.DecoratedClasses
import FetchClients.Proofs.FoundSources
import FetchClients.Proofs.IncludedDirectories
import FetchClients.Proofs.RenderedText
import FetchClients.Proofs.CommentKeys
import FetchClients.Proofs.ConfigTexts
import FetchClients.Proofs.PrintedOutlines
