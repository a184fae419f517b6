import DeployManifest.Manifest.Links
import DeployManifest.Deployment.Options
import DeployManifest.Logging.Setup
import DeployManifest.Proofs.Outcome
import DeployManifest.Proofs.StagedOps
import DeployManifest.Proofs.RecordReading
import DeployManifest.Proofs.SchedulingRoundTrip
import DeployManifest.Proofs.ManifestRoundTrip
import DeployManifest.Proofs.ShortestDecimal
import DeployManifest.Proofs.FloatText
import DeployManifest.Proofs.KeyOrder
import DeployManifest.Proofs.CanonicalForm
import DeployManifest.Proofs.Anchoring
import DeployManifest.Proofs.Substitution
import DeployManifest.Proofs.Discovery
import DeployManifest.Proofs.Leftovers
import DeployManifest.Proofs.Transparency
import DeployManifest.Proofs.AddonInjection
import DeployManifest.Proofs.AddonRuns
import DeployManifest.Proofs.ImplicitValues
import DeployManifest.Proofs.ListedSecrets
import DeployManifest.Proofs.Unmarking
import DeployManifest.Proofs.TransparentAnchors
import DeployManifest.Proofs.PatchRuns
import DeployManifest.Proofs.Replacing
import DeployManifest.Proofs.Removing
import DeployManifest.Proofs.MissingTargets
import DeployManifest.Proofs.IndependentPatches
import DeployManifest.Proofs.NullTargets
import DeployManifest.Proofs.PlacementDimensions
import DeployManifest.Proofs.ListingOrder
import DeployManifest.Proofs.KeptEntries
import DeployManifest.Proofs.ExpectedVariables
import DeployManifest.Proofs.DeclaredNames
import DeployManifest.Proofs.ImageChanges
import DeployManifest.Proofs.SecretNames
import DeployManifest.Proofs.Aliases
import DeployManifest.Proofs.EscapedPaths
import DeployManifest.Proofs.Dependence
import DeployManifest.Proofs.UpdatePropagation
