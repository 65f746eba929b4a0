import PeopleDetection.Benchmark.Dataset
import PeopleDetection.Benchmark.Handles
import PeopleDetection.Benchmark.Invariant
import PeopleDetection.Benchmark.Totals
import PeopleDetection.Dataset.Clipping
import PeopleDetection.Dataset.Names
import PeopleDetection.Dataset.Pixels
import PeopleDetection.EpochController.Coherence
import PeopleDetection.EpochController.Inferences
import PeopleDetection.Frame
import PeopleDetection.GroundTruth.Buffer
import PeopleDetection.Intersection
import PeopleDetection.Scoring
import PeopleDetection.PostProcessing.Bounds
import PeopleDetection.PostProcessing.Kept
import PeopleDetection.Inference.Coherence
