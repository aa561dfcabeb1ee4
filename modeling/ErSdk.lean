import ErSdk.Basic
import ErSdk.Runs
import ErSdk.Linked
import ErSdk.Pclb
import ErSdk.PclbRegistry
import ErSdk.SystemPoll
import ErSdk.ProtocolClientSm
import ErSdk.Statics
import ErSdk.Ledger
import ErSdk.SmMoves
import ErSdk.Sessions
import ErSdk.Accounting
import ErSdk.RequestLimit
import ErSdk.MachineConfig
import ErSdk.WorldSteps
import ErSdk.ResponseTimeout
import ErSdk.ConnectLock
import ErSdk.ConnectTime
import ErSdk.SocketLog
import ErSdk.SocketLife
import ErSdk.Pmatch
import ErSdk.Patterns
import ErSdk.HttpParser
import ErSdk.HeaderBoundary
import ErSdk.HeaderNumbers
import ErSdk.HttpClient
import ErSdk.HttpDelivery
import ErSdk.HttpPairing
import ErSdk.RequestArgs
import ErSdk.ExositeHttpApi
import ErSdk.ExositeApi
import ErSdk.ClientConfig
import ErSdk.ExositeCalls
import ErSdk.ValueDelivery
import ErSdk.PayloadReuse
import ErSdk.ExositeBooks
import ErSdk.ExositeSteps
import ErSdk.ExositeRuns
import ErSdk.RequestQueue
import ErSdk.ExositePhases
import ErSdk.SmSearch
import ErSdk.Activation
import ErSdk.CikSafety
import ErSdk.HttpMessage
import ErSdk.HttpRequest
import ErSdk.RequestRoundTrip
import ErSdk.RequestFraming
import ErSdk.Backtracking
import ErSdk.PatternItems
import ErSdk.PatternTrials
import ErSdk.PatternAgreement
import ErSdk.PatternSearch
import ErSdk.PatternSafety
import ErSdk.CaptureBounds
import ErSdk.ConfiguratorFields
import ErSdk.ConfiguratorUrl
import ErSdk.ConfiguratorServer
import ErSdk.ConfiguratorAsserts
import ErSdk.ConfiguratorRounds
import ErSdk.ConfiguratorTurns
import ErSdk.ConfiguratorSockets
import ErSdk.ConfiguratorSecurity
import ErSdk.ConfiguratorSend
import ErSdk.ConfiguratorPairs
import ErSdk.ConfiguratorChunks
import ErSdk.ConfiguratorForm
import ErSdk.ConfiguratorLifecycle
import ErSdk.LibcoapClient
import ErSdk.UipPort
import ErSdk.UipSend
import ErSdk.UipRecv
import ErSdk.CyclicIndex
import ErSdk.Cbuffer
import ErSdk.LinkedTree
import ErSdk.Tdictionary
import ErSdk.DictionaryAdd
import ErSdk.DictionaryWalk
import ErSdk.PlainSearch
import ErSdk.Rtc
import ErSdk.OverwritingRing
import ErSdk.Packets
import ErSdk.CStrings
import ErSdk.StringObjects
import ErSdk.StringReplace
import ErSdk.StringRuns
import ErSdk.HeapManager
import ErSdk.RequestPacking
import ErSdk.Constructors
import ErSdk.CoapLibraries
import ErSdk.CoapRequests
import ErSdk.RequestObjects
import ErSdk.Subscriptions
import ErSdk.SystemSleep
import ErSdk.ActivationBackoff
import ErSdk.CriticalSections
import ErSdk.TwoWayList
import ErSdk.LinkedQueue
import ErSdk.ConcurrentQueue
import ErSdk.ConnectRetries
import ErSdk.ExosMutex
import ErSdk.QueueThreads
import ErSdk.Interaction
import ErSdk.Leases
import ErSdk.NetPort
import ErSdk.PosixTcp
import ErSdk.MbedtlsClient
import ErSdk.NetworkStack
import ErSdk.StackedMachines
import ErSdk.UserCalls
import ErSdk.RequestOrder
import ErSdk.RequestProgress
import ErSdk.CallOrder
import ErSdk.CikStore
