import Rodos.TransitionSystem
import Rodos.ThreadSelection
import Rodos.RoundRobin
import Rodos.YieldPreselection
import Rodos.SemaphoreMachine
import Rodos.SemaphoreExclusion
import Rodos.SemaphoreBookkeeping
import Rodos.PriorityInversion
import Rodos.PriorityRestoration
import Rodos.CanDelivery
import Rodos.CanIsolation
import Rodos.CanBounds
import Rodos.CanConservation
import Rodos.HeaderCodec
import Rodos.UartLink
import Rodos.PythonMiddleware
import Rodos.DuplicateSuppression
import Rodos.SeenNodesProtector
import Rodos.TopicReports
import Rodos.LocalDelivery
import Rodos.ReceiveBounds
import Rodos.HopLimit
import Rodos.S3pSenders
import Rodos.PythonUartLink
import Rodos.CcsdsCheckout
import Rodos.Commbuffer
import Rodos.SyncFifo
import Rodos.BlockFifo
import Rodos.MultipleReaderFifo
import Rodos.Barrier
import Rodos.DriverWakeups
import Rodos.TimeEvents
import Rodos.Stm32l4Time
import Rodos.Va41620Time
import Rodos.Va41620Can
import Rodos.NextToRun
import Rodos.EventPropagation
import Rodos.BitFieldGenerator
import Rodos.SyncCommBuffer
import Rodos.SharedRingBuffer
import Rodos.Va41620Receive
import Rodos.SubscriberLists
import Rodos.DistributedTopics
import Rodos.HalSharedmemory
import Rodos.TelecommandGenerator
import Rodos.NextBeat
import Rodos.TickProgramming
import Rodos.ShiftRegister
import Rodos.CrcEquivalence
import Rodos.CrcBurst
import Rodos.ChecksumErrors
import Rodos.BitFieldAccess
import Rodos.Gregorian
import Rodos.Calendar
import Rodos.CalendarRoundTrip
import Rodos.CanFilters
import Rodos.EcssTime
import Rodos.ByteStream
import Rodos.ByteStreamFifo
import Rodos.DoublyLinked
import Rodos.SortedList
import Rodos.SortedListRuns
import Rodos.CanPolling
import Rodos.GatewayTable
import Rodos.Xmalloc
import Rodos.CyclicReading
import Rodos.MonitoringReader
import Rodos.StringTokenizer
import Rodos.StrToInt
import Rodos.YprintfFormats
import Rodos.SharedPointers
import Rodos.SpiPrescalers
import Rodos.StringBuffer
import Rodos.StringPico
import Rodos.ActivityExecuter
import Rodos.PoolIndex
import Rodos.Receiver
import Rodos.Vaprintf
import Rodos.VaprintfEmission
import Rodos.VaprintfArguments
import Rodos.Snprintf
import Rodos.BoundedWaiting
import Rodos.Timeliness
import Rodos.Flooding
import Rodos.RemoteDelivery
import Rodos.PythonInterop
import Rodos.RandomKiss
import Rodos.RegisterNetwork
import Rodos.SharedMemoryLink
import Rodos.MonitoringReports
import Rodos.PrintedNumbers
import Rodos.Va41620UartReceive
