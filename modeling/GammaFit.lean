import GammaFit.Request.Answer
import GammaFit.Main
import GammaFit.Proofs.Float.Difference
import GammaFit.Proofs.Rejection
import GammaFit.Proofs.Bins
import GammaFit.Proofs.Candidates
import GammaFit.Proofs.Window
import GammaFit.Proofs.Moments
import GammaFit.Proofs.Regression
import GammaFit.Proofs.Region.Upkeep
import GammaFit.Proofs.Region.Peaks
import GammaFit.Proofs.Region.History
import GammaFit.Proofs.Region.Invariant
import GammaFit.Proofs.Region.Fitting
import GammaFit.Proofs.Region.Editing
import GammaFit.Proofs.Region.Reachable
import GammaFit.Proofs.Region.Identities
import GammaFit.Proofs.Region.Refinement
import GammaFit.Proofs.Region.Backgrounds
import GammaFit.Proofs.Region.Rebuild
import GammaFit.Proofs.Region.AutoFit
import GammaFit.Proofs.Region.Range
import GammaFit.Proofs.Region.Reload
import GammaFit.Proofs.Analysis.Identities
import GammaFit.Proofs.Analysis.Placement
import GammaFit.Proofs.Analysis.Separation
import GammaFit.Proofs.Lockstep
import GammaFit.Proofs.Region.Refit
import GammaFit.Proofs.Region.Readiness
import GammaFit.Proofs.Region.Cuts
import GammaFit.Proofs.Region.Adjust
import GammaFit.Proofs.Region.Phases
import GammaFit.Proofs.Region.Anchors
import GammaFit.Proofs.Region.Enclosure
import GammaFit.Proofs.Region.Representation
import GammaFit.Proofs.Calibration
import GammaFit.Proofs.TwoPoint
import GammaFit.Proofs.Documents
import GammaFit.Proofs.SettingsDocument
import GammaFit.Proofs.Text
import GammaFit.Proofs.SpectrumFiles
