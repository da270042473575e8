import Podly.Access.Middleware
import Podly.AdBlocks.Bridging
import Podly.AdBlocks.EditedTimeline
import Podly.AdBlocks.Grouping
import Podly.AdBlocks.Windows
import Podly.BoundaryRefiner.Refine
import Podly.Chapters.Description
import Podly.Chapters.RefinedStarts
import Podly.Chapters.Retime
import Podly.Chapters.SegmentIndex
import Podly.Chapters.TopicPlan
import Podly.Chapters.TopicTiling
import Podly.Chapters.Write
import Podly.Classifier.Blocks
import Podly.Classifier.Detection
import Podly.Classifier.Marks
import Podly.Classifier.Offsets
import Podly.Classifier.Overlap
import Podly.Classifier.Refining
import Podly.Classifier.RowSharing
import Podly.Cutter.CutWindows
import Podly.Cutter.Fade
import Podly.Cutter.Keep
import Podly.Episodes.Allowance
import Podly.Episodes.Frame
import Podly.Feeds.Validators
import Podly.Feeds.XmlElements
import Podly.Feeds.XmlRoundTrip
import Podly.Feeds.XmlText
import Podly.Floats.Extended
import Podly.Intervals.Measure
import Podly.Intervals.Tiling
import Podly.JobsManager.Reprocess
import Podly.Json.Cut
import Podly.Json.Dumps
import Podly.Json.Machine
import Podly.Json.Outer
import Podly.Lists.BestChain
import Podly.Lists.Bisect
import Podly.Lists.CommonSubsequence
import Podly.Lists.Components
import Podly.ModelOutput.Clean
import Podly.RateLimits.Backoff
import Podly.RateLimits.TokenWindow
import Podly.Refresh.Planners
import Podly.RepeatAds.Finder
import Podly.RepeatAds.Scan
import Podly.Strings.Replace
import Podly.Strings.Trimmed
import Podly.Transcription.Reuse
import Podly.Transcription.Split
import Podly.Users.Actions
import Podly.Users.Interleaving
import Podly.WordBoundary.LlmParity
import Podly.WordBoundary.PythonPath
import Podly.WordBoundary.Refiner
import Podly.WordBoundary.ReplyParity
import Podly.WordBoundary.ReplyText
import Podly.Writer.AdmissionRuns
import Podly.Writer.Cancellation
import Podly.Writer.CounterRuns
import Podly.Writer.EpisodeFiles
import Podly.Writer.Parity
import Podly.ModelOutput.Stated
import Podly.ModelOutput.Survives
import Podly.Chapters.BlockText
import Podly.Numerals.Decimal
import Podly.Numerals.Script
import Podly.Serde.Scalar
import Podly.Transcription.TopLevelWords
import Podly.Transcription.WordTimestamps
import Podly.WordTimestamps.Agreement
import Podly.ProfanityFilter.Windows
import Podly.Retention.Guarantee
import Podly.AutoRetry.Redone
import Podly.EpisodeLocks.Holders
import Podly.Downloads.JobPaths
import Podly.Feeds.DurationsAgree
import Podly.Lists.FilterMap
import Podly.WordBoundary.ObjectsFound
import Podly.AutoRefresh.Cooldown
import Podly.Protocol.RoundTrip
import Podly.Rpc.Truthful
import Podly.ReplyQueues.Routed
import Podly.Processing.ChapterStrategy
import Podly.WordTimestamps.CompressionJob
import Podly.JobsManager.Dispatch
import Podly.JobsManager.Supervised
