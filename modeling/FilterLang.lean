import FilterLang.Main
import FilterLang.SortOrder.Json
import FilterLang.Proofs.Embedding
import FilterLang.Proofs.Quoting
import FilterLang.Proofs.RoundTrip
import FilterLang.Proofs.Completion
import FilterLang.Proofs.Combining
import FilterLang.Proofs.Unnegated
import FilterLang.Proofs.DepthLimit
import FilterLang.Proofs.Height
import FilterLang.Proofs.Finality
import FilterLang.Proofs.JsonText
import FilterLang.Proofs.NodeForms
import FilterLang.Proofs.Segmentation
import FilterLang.Proofs.Consistency
import FilterLang.Proofs.Comparisons
import FilterLang.Proofs.FlatChains
import FilterLang.Proofs.SideBySide
import FilterLang.Proofs.Layout
import FilterLang.Proofs.NumberMode
import FilterLang.Proofs.OpenQuotes
import FilterLang.Proofs.Concatenation
import FilterLang.Proofs.Numerals
import FilterLang.Proofs.Terms
import FilterLang.Proofs.Grouping
import FilterLang.Proofs.Arities
import FilterLang.Proofs.Membership
import FilterLang.Proofs.SortOrders
import FilterLang.Proofs.Printing
import FilterLang.Proofs.Configurations
import FilterLang.Proofs.Sessions
