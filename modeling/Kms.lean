import Kms.Crypto.Identity
import Kms.Storage.AckOrder
import Kms.Storage.PurgePool
import Kms.Storage.SecretCohort
import Kms.Core.Activation
import Kms.Core.Admission
import Kms.Core.AuditRetention
import Kms.Core.Decryptable
import Kms.Core.Readability
import Kms.Core.ReleaseDiff
import Kms.Core.Rollout
import Kms.Core.VerifyDefaults
import Kms.Watch.DispatchLoop
import Kms.Watch.HandOff
import Kms.Watch.ReleaseHandOff
import Kms.Client.GoCache
import Kms.Client.GoRestart
import Kms.Client.Provenance
import Kms.Client.PyRestart
import Kms.Client.TsChronology
import Kms.Loader.GoConverge
import Kms.Loader.PySafety
import Kms.Loader.ServerTargets
import Kms.Loader.TsSurvival
import Kms.Console.Sse
