import TagScope.Lookup.Basic
import TagScope.Object
import TagScope.Path.Text
import TagScope.Proofs.Balance
import TagScope.Proofs.Numerals
import TagScope.Proofs.Sound
import TagScope.Proofs.Complete
import TagScope.Proofs.Splitting
import TagScope.Proofs.Printing
import TagScope.Proofs.Levels
import TagScope.Proofs.Journal
import TagScope.Proofs.Family
import TagScope.Proofs.Limit
import TagScope.Proofs.Members
import TagScope.Proofs.Narrowing
import TagScope.Proofs.Substitution
import TagScope.Proofs.WellFormed
import TagScope.Proofs.Quiet
import TagScope.Proofs.Pieces
import TagScope.Proofs.Enclosed
import TagScope.Proofs.Faults
import TagScope.Proofs.Encounters
import TagScope.Proofs.Forwarding
import TagScope.Proofs.Malformed
import TagScope.Proofs.Raising
import TagScope.Proofs.Joining
import TagScope.Proofs.AsArgument
import TagScope.Proofs.Reached
import TagScope.Proofs.InPlace
import TagScope.Proofs.Counting
import TagScope.Proofs.Presence
import TagScope.Proofs.Escaping
import TagScope.Proofs.Fitting
import TagScope.Proofs.InBounds
import TagScope.Proofs.Pairing
import TagScope.Proofs.Asserting
import TagScope.Proofs.Contents
import TagScope.Proofs.Equivalence
import TagScope.Proofs.Budget
import TagScope.Proofs.Decimals
import TagScope.Proofs.Indexed
import TagScope.Proofs.SimpleTag
