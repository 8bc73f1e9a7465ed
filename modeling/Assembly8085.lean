import Assembly8085.Main
import Assembly8085.Proofs.Composition
import Assembly8085.Proofs.Coverage
import Assembly8085.Proofs.Excerpt
import Assembly8085.Proofs.Histories
import Assembly8085.Proofs.Language
import Assembly8085.Proofs.Layout
import Assembly8085.Proofs.Leaves
import Assembly8085.Proofs.Postorder
import Assembly8085.Proofs.Reports
import Assembly8085.Proofs.RoundTrip
import Assembly8085.Proofs.Tiling
import Assembly8085.Proofs.Handmade
import Assembly8085.Proofs.Outcomes
import Assembly8085.Proofs.Resumption
import Assembly8085.Proofs.Filtering
import Assembly8085.Proofs.Suffix
import Assembly8085.Proofs.Findings
import Assembly8085.Proofs.Coherence
import Assembly8085.Proofs.Ending
import Assembly8085.Proofs.ExitStatus
import Assembly8085.Proofs.Journal
import Assembly8085.Proofs.Decoding
import Assembly8085.Proofs.Spelling
import Assembly8085.Proofs.Faults
import Assembly8085.Proofs.Adoption
import Assembly8085.Proofs.Ascent
import Assembly8085.Proofs.Ancestry
import Assembly8085.Proofs.Bisection
import Assembly8085.Proofs.Lines
import Assembly8085.Proofs.Places
import Assembly8085.Proofs.Classification
