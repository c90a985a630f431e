import PolicyLint.Main
import PolicyLint.Proofs.Catalog.Chain
import PolicyLint.Proofs.Catalog.Joined
import PolicyLint.Proofs.Catalog.KnownKeys
import PolicyLint.Proofs.Catalog.Origin
import PolicyLint.Proofs.Catalog.Store
import PolicyLint.Proofs.Policy.BlockScope
import PolicyLint.Proofs.Policy.ByteOrderMark
import PolicyLint.Proofs.Policy.LoneDash
import PolicyLint.Proofs.Policy.Positions
import PolicyLint.Proofs.Policy.QuotedName
import PolicyLint.Proofs.Policy.VoidLines
import PolicyLint.Proofs.Policy.Spelling
import PolicyLint.Proofs.Policy.Outline
import PolicyLint.Proofs.Policy.Unrelated
import PolicyLint.Proofs.Policy.Entries
import PolicyLint.Proofs.Policy.MissingList
import PolicyLint.Proofs.Report.Counts
import PolicyLint.Proofs.Rule.Date
import PolicyLint.Proofs.Rule.Drafts
import PolicyLint.Proofs.Rule.Optionality
import PolicyLint.Proofs.Files.Listing
import PolicyLint.Proofs.Command.Check
