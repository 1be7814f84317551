import Stencil.Main
import Stencil.Proofs.FreeNames
import Stencil.Proofs.GrammarComplete
import Stencil.Proofs.LineRule
import Stencil.Proofs.Meaning
import Stencil.Proofs.PrintRoundTrip
import Stencil.Proofs.Stream
import Stencil.Proofs.TagReading
import Stencil.Proofs.NodeReading
import Stencil.Proofs.Moved
import Stencil.Proofs.LaterText
import Stencil.Proofs.Places
import Stencil.Proofs.Seam
import Stencil.Proofs.Concatenation
import Stencil.Proofs.AllOrNothing
import Stencil.Proofs.Spacing
import Stencil.Proofs.BlankFile
import Stencil.Proofs.DocumentKeys
import Stencil.Proofs.SavedStore
import Stencil.Proofs.CommandRuns
import Stencil.Proofs.Edits
import Stencil.Proofs.PassThrough
import Stencil.Proofs.FilterCalls
import Stencil.Proofs.TokenPlaces
import Stencil.Proofs.ErrorPlaces
import Stencil.Proofs.History
import Stencil.Proofs.Overrides
import Stencil.Proofs.JsonRoundTrip
import Stencil.Proofs.Attributes
import Stencil.Proofs.FirstOccurrences
import Stencil.Proofs.Equality
import Stencil.Proofs.NumberOrder
import Stencil.Proofs.Comments
import Stencil.Proofs.RepeatedItems
import Stencil.Proofs.EmptyText
import Stencil.Proofs.LoadedEntries
import Stencil.Proofs.ItemNumbers
import Stencil.Proofs.LoopRounds
import Stencil.Proofs.CommentHeader
import Stencil.Proofs.LastingErrors
import Stencil.Proofs.Renaming
import Stencil.Proofs.MapViews
import Stencil.Proofs.FloatThousands
import Stencil.Proofs.TitleCase
import Stencil.Proofs.NumberLiterals
