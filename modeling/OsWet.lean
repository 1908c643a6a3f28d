import OsWet.ForStd.Chain
import OsWet.ForStd.Children
import OsWet.ForStd.Descriptors
import OsWet.ForStd.Draws
import OsWet.ForStd.Ends
import OsWet.ForStd.Finset
import OsWet.ForStd.FirstMax
import OsWet.ForStd.FixedBuffers
import OsWet.ForStd.Forest
import OsWet.ForStd.ForestChanges
import OsWet.ForStd.Heap
import OsWet.ForStd.HeapLive
import OsWet.ForStd.InputStream
import OsWet.ForStd.Machine
import OsWet.ForStd.Monitor
import OsWet.ForStd.MonitorAccount
import OsWet.ForStd.MonitorProgress
import OsWet.ForStd.MonitorRefinement
import OsWet.ForStd.MonitorWakeup
import OsWet.ForStd.Path
import OsWet.ForStd.Pick
import OsWet.ForStd.Pipe
import OsWet.ForStd.Process
import OsWet.ForStd.Progress
import OsWet.ForStd.Triple
import OsWet.ForStd.Words
import OsWet.ForStd.World
import OsWet.Native.BackgroundProcesses
import OsWet.Native.ChangeDir
import OsWet.Native.Client
import OsWet.Native.CommandLine
import OsWet.Native.JobsList
import OsWet.Native.MainLoop
import OsWet.Native.Message
import OsWet.Native.MessageQueue
import OsWet.Native.PipeProcesses
import OsWet.Native.QuitCommand
import OsWet.Native.Request
import OsWet.Native.RequestStrings
import OsWet.Native.Segel
import OsWet.Native.Server
import OsWet.Native.ServerStart
import OsWet.Native.ShellDescriptors
import OsWet.Native.Smash
import OsWet.Native.SmashStatements
import OsWet.Native.Tasks
import OsWet.Native.Text
import OsWet.Native.Worker
import OsWet.Spec.BackgroundHandshake
import OsWet.Spec.BackgroundMarking
import OsWet.Spec.BackgroundStarts
import OsWet.Spec.BackgroundSteps
import OsWet.Spec.BashCommand
import OsWet.Spec.CatOutput
import OsWet.Spec.ChangeDirRecords
import OsWet.Spec.ChildrenSum
import OsWet.Spec.ChildrenSumChanges
import OsWet.Spec.ClientRuns
import OsWet.Spec.ClientServer
import OsWet.Spec.DescriptorConservation
import OsWet.Spec.DropBuffer
import OsWet.Spec.FinishedJobs
import OsWet.Spec.GetKeeps
import OsWet.Spec.HeaviestAncestor
import OsWet.Spec.JobsListCorrect
import OsWet.Spec.MainLoop
import OsWet.Spec.NumberText
import OsWet.Spec.NumericArguments
import OsWet.Spec.PipelineCompletes
import OsWet.Spec.PipelineRuns
import OsWet.Spec.PipelineSteps
import OsWet.Spec.ProcessForest
import OsWet.Spec.PutAtomic
import OsWet.Spec.QueueBound
import OsWet.Spec.QueueFree
import OsWet.Spec.QueueHistory
import OsWet.Spec.QueueMemory
import OsWet.Spec.QueueModel
import OsWet.Spec.QueueNodes
import OsWet.Spec.QueueOwnership
import OsWet.Spec.QueueProgress
import OsWet.Spec.QueueRefinement
import OsWet.Spec.QueueSafety
import OsWet.Spec.QueueSizes
import OsWet.Spec.QueueWakeup
import OsWet.Spec.QuitKill
import OsWet.Spec.RandomDrop
import OsWet.Spec.RandomDropExact
import OsWet.Spec.RandomIndexes
import OsWet.Spec.RandomIndexesStream
import OsWet.Spec.RedirectionRoundTrip
import OsWet.Spec.RequestExit
import OsWet.Spec.RequestHeaders
import OsWet.Spec.RequestIndependence
import OsWet.Spec.RequestInput
import OsWet.Spec.RequestPath
import OsWet.Spec.RequestPortions
import OsWet.Spec.RequestResponse
import OsWet.Spec.RequestReturn
import OsWet.Spec.RequestWorld
import OsWet.Spec.ReturnedJobs
import OsWet.Spec.ServerDrains
import OsWet.Spec.ServerInvariant
import OsWet.Spec.ServerLeaks
import OsWet.Spec.ServerOrder
import OsWet.Spec.ServerOwnership
import OsWet.Spec.ServerStart
import OsWet.Spec.ServerStep
import OsWet.Spec.SignalTargets
import OsWet.Spec.SmashIds
import OsWet.Spec.SmashJobs
import OsWet.Spec.SmashRefinement
import OsWet.Spec.SmashStep
import OsWet.Spec.StaticFraming
import OsWet.Spec.StringsFit
import OsWet.Spec.UniformMarking
import OsWet.Spec.WorkerStatistics
