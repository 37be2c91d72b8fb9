import IMUtility.Typedefs
import IMUtility.Lib.DivisionRegister
import IMUtility.Lib.RegisterPolynomial
import IMUtility.Lib.RegisterOrder
import IMUtility.Lib.Slots
import IMUtility.Lib.Arrangement
import IMUtility.Lib.WeakOrder
import IMUtility.Lib.Inversions
import IMUtility.Lib.Displacement
import IMUtility.Lib.Keys
import IMUtility.Lib.Refinement
import IMUtility.Lib.FirstBest
import IMUtility.Lib.Ranking
import IMUtility.Lib.Tabulation
import IMUtility.Lib.Memory
import IMUtility.Lib.Delimited
import IMUtility.Lib.ByteOrder
import IMUtility.Lib.Patch
import IMUtility.BitManipulation
import IMUtility.BitManipulation.Positions
import IMUtility.Crc.Bitwise
import IMUtility.Crc.Base
import IMUtility.Crc.Burst
import IMUtility.Crc.Tables
import IMUtility.Crc.Variants
import IMUtility.Crc.Chunks
import IMUtility.Crc.Published
import IMUtility.Crc.Residue
import IMUtility.Crc.Reflected
import IMUtility.Crc.Remainder
import IMUtility.Crc.Errors
import IMUtility.SlotAccess
import IMUtility.Queue.Basic
import IMUtility.Queue.Refinement
import IMUtility.Queue.Offsets
import IMUtility.Queue.History
import IMUtility.PriorityQueue.Basic
import IMUtility.PriorityQueue.Refinement
import IMUtility.PriorityQueue.Ranking
import IMUtility.PriorityQueue.Offsets
import IMUtility.PriorityQueue.History
import IMUtility.Map.Basic
import IMUtility.Map.Refinement
import IMUtility.Map.Bounds
import IMUtility.Map.Order
import IMUtility.Base64.Basic
import IMUtility.Base64.Text
import IMUtility.Base64.Decoded
import IMUtility.Base64.Correctness
import IMUtility.Base64.RoundTrip
import IMUtility.Base64.Canonical
import IMUtility.Base64.Pieces
import IMUtility.Base64.Bounds
import IMUtility.Json.Basic
import IMUtility.Json.Search
import IMUtility.Json.Reading
import IMUtility.Json.Positions
import IMUtility.Json.Member
import IMUtility.Json.FlatObject
import IMUtility.Json.Builder
import IMUtility.Json.Document
import IMUtility.Json.BuilderRuns
import IMUtility.Json.Appending
import IMUtility.Json.RoundTrip
import IMUtility.Utils
import IMUtility.Utils.Serialize
import IMUtility.Utils.Records
import IMUtility.Utils.Blob
import IMUtility.Utils.Messages
import IMUtility.Utils.StringToUint32
import IMUtility.Utils.Numerals
import IMUtility.Json.TypedValues
import IMUtility.Sorting.Basic
import IMUtility.Sorting.Selection
import IMUtility.Sorting.SelectionPasses
import IMUtility.Sorting.Bubble
import IMUtility.Sorting.Heap
import IMUtility.Sorting.HeapBounds
import IMUtility.Sorting.HeapOverflow
import IMUtility.Sorting.Oracle
import IMUtility.Sorting.Agreement
import IMUtility.Sorting.Costs
import IMUtility.Sorting.Passes
import IMUtility.Scheduler.Basic
import IMUtility.Scheduler.Runs
import IMUtility.Scheduler.Reentrant
