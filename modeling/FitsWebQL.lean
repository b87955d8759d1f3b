import FitsWebQL.Lib.Tiling
import FitsWebQL.Pixel
import FitsWebQL.Regions
import FitsWebQL.Cache
import FitsWebQL.Header
import FitsWebQL.Frames
import FitsWebQL.Spectrum
import FitsWebQL.CubeImage
import FitsWebQL.CubeRange
import FitsWebQL.VideoFrame
import FitsWebQL.Download
import FitsWebQL.Lib.Feed
import FitsWebQL.DownloadSteps
import FitsWebQL.DownloadRuns
import FitsWebQL.DownloadBounds
import FitsWebQL.Messages
import FitsWebQL.Lib.Binary
import FitsWebQL.Lib.Printf
import FitsWebQL.CutOut
import FitsWebQL.CutOutFile
import FitsWebQL.CutOutStorage
import FitsWebQL.BlockFile
import FitsWebQL.SpectralAxis
import FitsWebQL.RegionReads
import FitsWebQL.DownloadStream
import FitsWebQL.DownloadGroups
import FitsWebQL.DownloadMeans
import FitsWebQL.Lib.Runs
import FitsWebQL.Lib.Locks
import FitsWebQL.CacheLocks
import FitsWebQL.Lib.Members
import FitsWebQL.Persist
import FitsWebQL.Lifetimes
import FitsWebQL.CutOutBuffers
import FitsWebQL.Datasets
import FitsWebQL.Progress
import FitsWebQL.Realtime
import FitsWebQL.ArrayBounds
import FitsWebQL.BlockMaps
import FitsWebQL.BrowserAxis
import FitsWebQL.CubeBuffers
import FitsWebQL.VideoComplete
import FitsWebQL.AxisClass
import FitsWebQL.HeaderLoops
import FitsWebQL.ParallelLoad
import FitsWebQL.ToneMapping
import FitsWebQL.CacheNames
import FitsWebQL.ClientText
import FitsWebQL.Destructor
import FitsWebQL.ImageReply
import FitsWebQL.Lib.JsonNumbers
import FitsWebQL.Lib.Paths
import FitsWebQL.MetadataReply
import FitsWebQL.StaticFiles
import FitsWebQL.Brightness
import FitsWebQL.Sensitivity
import FitsWebQL.CachePurge
import FitsWebQL.CutStatistics
import FitsWebQL.Downsample
import FitsWebQL.LocalLoad
import FitsWebQL.WholeImage
import FitsWebQL.BoundingBox
import FitsWebQL.DataStatistics
import FitsWebQL.Kalman
import FitsWebQL.Lib.Selection
import FitsWebQL.Median
import FitsWebQL.TileMirror
import FitsWebQL.TileResize
import FitsWebQL.Viewport
import FitsWebQL.WorkSplit
import FitsWebQL.BeamScale
import FitsWebQL.HeaderMemory
import FitsWebQL.HeaderStrings
import FitsWebQL.ImageScale
import FitsWebQL.KalmanStep
import FitsWebQL.KalmanVideo
import FitsWebQL.Lib.RowOperations
import FitsWebQL.MatrixInvert
import FitsWebQL.Contour
import FitsWebQL.JsonDecode
import FitsWebQL.JsonEncode
import FitsWebQL.JsonPrecision
import FitsWebQL.VideoSession
import FitsWebQL.JsonCalls
import FitsWebQL.JsonCheck
