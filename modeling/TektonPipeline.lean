import TektonPipeline.Entrypoint.Interleaving
import TektonPipeline.TaskRun.Verification
import TektonPipeline.Pipeline.QueueErrors
import TektonPipeline.Pipeline.Completion
import TektonPipeline.TaskRun.ScriptParams
import TektonPipeline.Spire.Status
import TektonPipeline.Pod.Success
import TektonPipeline.Pod.StepNames
import TektonPipeline.Conversion.EditedTask
import TektonPipeline.Pipeline.Build
import TektonPipeline.Resolution.Total
import TektonPipeline.Api.MatrixIncludes
import TektonPipeline.Pipeline.Cleanup
import TektonPipeline.Pipeline.SubPaths
import TektonPipeline.Api.InlineParams
import TektonPipeline.TaskRun.ObjectKeys
import TektonPipeline.Pipeline.AggregateStatus
import TektonPipeline.Pipeline.EnumSubset
import TektonPipeline.Pipeline.ResultReferences
import TektonPipeline.Pipeline.MatrixOrder
import TektonPipeline.Pipeline.ObjectParams
import TektonPipeline.Pipeline.OverriddenDefaults
import TektonPipeline.Pipeline.MatrixLengths
import TektonPipeline.Pipeline.PropagateResults
import TektonPipeline.Api.MatrixConsumers
import TektonPipeline.Api.ParamValueJson
import TektonPipeline.Pipeline.ChildRefs
import TektonPipeline.Pipeline.TimeoutLimits
import TektonPipeline.Pod.LookForResults
import TektonPipeline.Pod.ArtifactUnion
import TektonPipeline.Pod.StepEntries
import TektonPipeline.Termination.RepeatedWrites
import TektonPipeline.ComputeResources.TaskLevel
import TektonPipeline.ComputeResources.Transformer
import TektonPipeline.Resolution.Workers
import TektonPipeline.Spire.TrustBundle
import TektonPipeline.Library.Stateful
import TektonPipeline.TaskRun.AsAuthored
import TektonPipeline.TaskRun.Retry
