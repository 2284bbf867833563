import LibApta.Beatgrid.Windows
import LibApta.Desktop.WavReads
import LibApta.Lifetime.Release
import LibApta.Memory.Context
import LibApta.Memory.Workspace
import LibApta.Query.Truth
import LibApta.Serialization.AllocationLimit
import LibApta.Serialization.Checksum
import LibApta.Serialization.GridConformance
import LibApta.Serialization.MetaDeterminism
import LibApta.Serialization.Reencoding
import LibApta.Session.Coverage
import LibApta.Session.DemandOrder
import LibApta.Session.DemandSoundness
import LibApta.Session.EstimatorRuns
import LibApta.Session.PooledWrites
import LibApta.Session.Preparation
import LibApta.Session.PullDemand
import LibApta.Session.PushContract
import LibApta.Session.QueueOrder
import LibApta.Session.Rollback
import LibApta.Session.SeedAtomicity
import LibApta.Session.StoredResult
import LibApta.Tempo.Coherence
import LibApta.Waveform.StoreRuns
