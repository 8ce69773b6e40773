import PathRouting.Policy.Document
import PathRouting.Proofs.Compiled.Lookup
import PathRouting.Decimal.Layout
import PathRouting.Matcher.Equality
import PathRouting.Text.Utf8.RoundTrip
import PathRouting.Proofs.Registry.Refusal
import PathRouting.Proofs.Matcher.Backtracking
import PathRouting.Proofs.Registry.Writes
import PathRouting.Proofs.Route.Written
import PathRouting.Proofs.Compiled.ReadBack
import PathRouting.Proofs.Matcher.Same
import PathRouting.Proofs.Compiled.Reordering
import PathRouting.Proofs.Compiled.Overwriting
import PathRouting.Proofs.Compiled.Building
import PathRouting.Proofs.Matcher.Cursor
import PathRouting.Proofs.Registry.Shape
import PathRouting.Proofs.Registry.Outcome
import PathRouting.Proofs.Matcher.Alternatives
import PathRouting.Proofs.Matcher.Folding
import PathRouting.Proofs.Matcher.Congruence
import PathRouting.Proofs.Compiled.NormalForm
import PathRouting.Proofs.Compiled.Weights
import PathRouting.Proofs.Compiled.Counting
import PathRouting.Proofs.Text.SoftDecoding
import PathRouting.Proofs.Route.Splitting
import PathRouting.Proofs.Text.Writing
import PathRouting.Proofs.Matcher.Remainder
import PathRouting.Proofs.Policy.Reading
import PathRouting.Proofs.Json.Acceptance
import PathRouting.Proofs.Policy.Acceptance
import PathRouting.Proofs.Compiled.Dispatch
import PathRouting.Proofs.Matcher.Scanning
import PathRouting.Proofs.Registry.Messages
