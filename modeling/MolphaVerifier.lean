import MolphaVerifier.FixedBytes
import MolphaVerifier.LimbArithmetic
import MolphaVerifier.BarrettReduction
import MolphaVerifier.CheckedLimbs
import MolphaVerifier.BitVecIteration
import MolphaVerifier.FallibleFolds
import MolphaVerifier.LucasCertificates
import MolphaVerifier.ShortWeierstrassPoints
import MolphaVerifier.JacobianAddition
import MolphaVerifier.Secp256k1Group
import MolphaVerifier.SchnorrEquations
import MolphaVerifier.SquareAndMultiply
import MolphaVerifier.ResidueRelabelling
import MolphaVerifier.AttestationMessage
import MolphaVerifier.ScalarArithmetic
import MolphaVerifier.ExternalPrimitives
import MolphaVerifier.ReferencePrimitives
import MolphaVerifier.SignerBitmap
import MolphaVerifier.RegistrySnapshot
import MolphaVerifier.CoalitionSum
import MolphaVerifier.AttestationVerification
import MolphaVerifier.SchnorrSoundness
import MolphaVerifier.LimbBits
import MolphaVerifier.CappedCollection
import MolphaVerifier.RankedFilters
import MolphaVerifier.PackedRecords
import MolphaVerifier.RegistryAccountLayout
import MolphaVerifier.SuppliedCoalitionKeys
import MolphaVerifier.ProviderProvenance
import MolphaVerifier.GroupSampling
import MolphaVerifier.CommitteeSelection
import MolphaVerifier.LowSRecovery
import MolphaVerifier.KeyPossession
import MolphaVerifier.KeyRotation
import MolphaVerifier.SignerAgreement
import MolphaVerifier.AccountVerification
import MolphaVerifier.ViewIndependence
import MolphaVerifier.SpecialSoundness
import MolphaVerifier.FixedLayouts
import MolphaVerifier.HashPreimages
import MolphaVerifier.CommitteePolicing
import MolphaVerifier.ModularMultiplication
import MolphaVerifier.PartialSignatures
import MolphaVerifier.RecoveryInstances
import MolphaVerifier.ModularInversion
import MolphaVerifier.SignerLists
import MolphaVerifier.PossessionReplay
import MolphaVerifier.RotationAuthorization
import MolphaVerifier.FirstDistinctDraws
import MolphaVerifier.NestedCommittees
import MolphaVerifier.SamplingSymmetry
import MolphaVerifier.VisitedPrefixes
import MolphaVerifier.SetBitIteration
import MolphaVerifier.LowSNormalForm
import MolphaVerifier.CollectionTail
import MolphaVerifier.SamplingRounds
import MolphaVerifier.RandomOracleCommittees
import MolphaVerifier.SigningSessions
import MolphaVerifier.SignatureBinding
import MolphaVerifier.HonestRounds
import MolphaVerifier.KeyCustody
import MolphaVerifier.KeySigners
import MolphaVerifier.VerificationOutcomes
import MolphaVerifier.CheckedVerification
import MolphaVerifier.BitmapRuns
import MolphaVerifier.NonceReuse
import MolphaVerifier.CommitteeCapture
