import ProgramHost.Linkage
import ProgramHost.Session
import ProgramHost.Proofs.Exits
import ProgramHost.Proofs.TokenRequest
import ProgramHost.Proofs.IntegerRequest
import ProgramHost.Proofs.ReadAgreement
import ProgramHost.Proofs.DecimalReading
import ProgramHost.Proofs.ReadBack
import ProgramHost.Proofs.BlockLayout
import ProgramHost.Proofs.Accounting
import ProgramHost.Proofs.Segments
import ProgramHost.Proofs.TokenSplitting
import ProgramHost.Proofs.IntegerOfToken
import ProgramHost.Proofs.ProgramRuns
import ProgramHost.Proofs.StandardOutput
import ProgramHost.Proofs.FatalRuns
import ProgramHost.Proofs.TokenOutcome
import ProgramHost.Proofs.FixedBounds
import ProgramHost.Proofs.HostAgreement
import ProgramHost.Proofs.SilentSteps
import ProgramHost.Proofs.ForeignStrings
import ProgramHost.Proofs.IntegerOutcome
import ProgramHost.Proofs.Comparison
import ProgramHost.Proofs.ScriptedWrites
import ProgramHost.Proofs.TokenConservation
import ProgramHost.Proofs.Demand
import ProgramHost.Proofs.Constructions
import ProgramHost.Proofs.LeadingNumber
import ProgramHost.Proofs.CanonicalDecimal
import ProgramHost.Proofs.Fallbacks
import ProgramHost.Proofs.CheckedAccess
import ProgramHost.Proofs.ComparisonLaws
import ProgramHost.Proofs.Slicing
import ProgramHost.Proofs.CharacterBytes
import ProgramHost.Proofs.DisplayedText
import ProgramHost.Proofs.ReadingLoops
import ProgramHost.Proofs.RequestLoops
import ProgramHost.Proofs.RequestProgress
import ProgramHost.Proofs.ExactSizes
