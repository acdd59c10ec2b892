import MatrixTransposer.Lib.BoundedFifo
import MatrixTransposer.Lib.Ring
import MatrixTransposer.SpscQueue
import MatrixTransposer.Proof.RingBufferInvariant
import MatrixTransposer.Proof.RingBufferLinearizable
import MatrixTransposer.Proof.SeqLockInvariant
import MatrixTransposer.Proof.SeqLockFifo
import MatrixTransposer.Proof.SeqLockDequeue
import MatrixTransposer.FutexSignaller
import MatrixTransposer.Proof.FutexSignal
import MatrixTransposer.Lib.WorkerPool
import MatrixTransposer.Transpose
import MatrixTransposer.Proof.TiledTranspose
import MatrixTransposer.ClientContext
import MatrixTransposer.ClientServerMessage
import MatrixTransposer.ServerWorkspace
import MatrixTransposer.Proof.TransposeBounds
import MatrixTransposer.Proof.ClientBank
import MatrixTransposer.Proof.AddClientSlot
import MatrixTransposer.ClientBankHandoff
import MatrixTransposer.Proof.ClientBankHandoff
import MatrixTransposer.Lib.Chunks
import MatrixTransposer.UnixSockIpcServer
import MatrixTransposer.Proof.ServerThread
import MatrixTransposer.Proof.MessageFraming
import MatrixTransposer.Lib.Rounds
import MatrixTransposer.RequestCycle
import MatrixTransposer.Proof.RequestStage
import MatrixTransposer.Proof.RequestMoves
import MatrixTransposer.Proof.RequestHistory
import MatrixTransposer.Proof.RequestProgress
import MatrixTransposer.Proof.RequestCycle
import MatrixTransposer.Lib.Calls
import MatrixTransposer.SpscQueueCalls
import MatrixTransposer.Proof.SpscQueueCalls
import MatrixTransposer.Proof.ProducerStop
import MatrixTransposer.Lib.StepCondition
import MatrixTransposer.ConnectionLedger
import MatrixTransposer.Proof.ServerBatch
import MatrixTransposer.Proof.MessageAssembly
import MatrixTransposer.Proof.AssemblyLoop
import MatrixTransposer.Proof.ConnectionClose
import MatrixTransposer.SharedMemoryObjects
import MatrixTransposer.Proof.SharedMemoryNames
import MatrixTransposer.TransposeServer
import MatrixTransposer.Proof.TransposeServer
import MatrixTransposer.Proof.Shutdown
import MatrixTransposer.AnyClients
import MatrixTransposer.Proof.BufferIndex
import MatrixTransposer.Proof.ClientSlots
import MatrixTransposer.Proof.RoundRobin
import MatrixTransposer.Proof.RequestCount
import MatrixTransposer.Proof.SharedMemoryFailure
import MatrixTransposer.Proof.AddClientFailure
import MatrixTransposer.Proof.ClientCount
import MatrixTransposer.Proof.NaiveTranspose
import MatrixTransposer.ServerMain
import MatrixTransposer.Proof.WorkerCount
import MatrixTransposer.TransposeClient
import MatrixTransposer.Proof.Verification
import MatrixTransposer.SpscQueueBuffer
import MatrixTransposer.Proof.SpscQueueBuffer
import MatrixTransposer.Proof.SeqLockComparison
import MatrixTransposer.Proof.OpenConnections
import MatrixTransposer.Proof.DrainLoop
import MatrixTransposer.UnixSockIpcClient
import MatrixTransposer.Proof.ConnectionCount
import MatrixTransposer.Lib.Decimal
import MatrixTransposer.ShmObjectNames
import MatrixTransposer.Proof.ShmObjectNames
import MatrixTransposer.Proof.TileDistribution
import MatrixTransposer.ClientMain
import MatrixTransposer.Deployment
import MatrixTransposer.Proof.Deployment
import MatrixTransposer.Proof.DeploymentContexts
import MatrixTransposer.Proof.DeploymentMain
import MatrixTransposer.Proof.DeploymentMemory
import MatrixTransposer.Proof.DeploymentService
import MatrixTransposer.Proof.DeploymentRefinement
import MatrixTransposer.Proof.DeploymentResults
import MatrixTransposer.Proof.DeploymentSession
import MatrixTransposer.Proof.DeploymentProgress
import MatrixTransposer.Lib.WordCodec
import MatrixTransposer.Proof.ClientFraming
import MatrixTransposer.Proof.MessageDelivery
import MatrixTransposer.Proof.DeploymentSlots
import MatrixTransposer.Proof.DeploymentHandler
import MatrixTransposer.DeploymentObjects
import MatrixTransposer.Proof.DeploymentSubscription
import MatrixTransposer.Proof.SharedMemoryConstruct
import MatrixTransposer.Proof.DeploymentObjects
