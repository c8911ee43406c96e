import DynamicValues.Proofs.Contracts
import DynamicValues.Proofs.Slice
import DynamicValues.Proofs.Lookup
import DynamicValues.Proofs.Edits
import DynamicValues.Proofs.Cursors
import DynamicValues.Proofs.Drain
import DynamicValues.Proofs.Failure
import DynamicValues.Proofs.Exchange
import DynamicValues.Proofs.Structural
import DynamicValues.Proofs.Canonical
import DynamicValues.Proofs.Decimal
import DynamicValues.Proofs.Json.Grammar
import DynamicValues.Proofs.Json.Reader
import DynamicValues.Proofs.Json.Numeral
import DynamicValues.Proofs.Json.Writer
import DynamicValues.Proofs.Rational
import DynamicValues.Proofs.Text.Fields
import DynamicValues.Proofs.Text.Split
import DynamicValues.Proofs.Text.Replace
import DynamicValues.Proofs.MapLaws
import DynamicValues.Proofs.Mirror
import DynamicValues.Proofs.Consume
import DynamicValues.Proofs.Text.Search
import DynamicValues.Proofs.SliceEdits
import DynamicValues.Proofs.Extrema
import DynamicValues.Proofs.Congruence
import DynamicValues.Proofs.Extensionality
import DynamicValues.Proofs.Progression
import DynamicValues.Proofs.Condense
import DynamicValues.Proofs.Pairs
import DynamicValues.Proofs.Draws
import DynamicValues.Proofs.Zip
import DynamicValues.Proofs.Sum
import DynamicValues.Proofs.Searches
import DynamicValues.Proofs.ListLaws
import DynamicValues.Proofs.Text.Letters
import DynamicValues.Proofs.Text.Words
import DynamicValues.Proofs.Mixing
import DynamicValues.Proofs.Text.Hash
import DynamicValues.Proofs.Guarded
