import CinnAutoSchedule.Utils.RandomEngine
import CinnAutoSchedule.Utils.RandomEnginePeriod
import CinnAutoSchedule.Utils.RandomEngineFork
import CinnAutoSchedule.SearchSpace.Core
import CinnAutoSchedule.SearchSpace.RandomScheduleMutate
import CinnAutoSchedule.SearchSpace.RandomInitialSketch
import CinnAutoSchedule.SearchSpace.MutationSafety
import CinnAutoSchedule.SearchSpace.ScheduleMutate
import CinnAutoSchedule.SearchSpace.CollectStateTransfer
import CinnAutoSchedule.SearchSpace.PrunedSketch
import CinnAutoSchedule.SearchSpace.InitialSketch
import CinnAutoSchedule.SearchSpace.SketchProvenance
