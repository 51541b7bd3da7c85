import MultiPortConvertor.Lib.Runs
import MultiPortConvertor.Lib.Rings
import MultiPortConvertor.Lib.Outcomes
import MultiPortConvertor.Lib.Bytes
import MultiPortConvertor.Lib.CString
import MultiPortConvertor.Lib.Calendar
import MultiPortConvertor.Tool.IntrusiveList
import MultiPortConvertor.Tool.BufFactory
import MultiPortConvertor.App.System
import MultiPortConvertor.Uart.Format
import MultiPortConvertor.Uart.GetData
import MultiPortConvertor.Uart.Grammar
import MultiPortConvertor.Uart.Dispose
import MultiPortConvertor.Uart.Handlers
import MultiPortConvertor.Uart.Parse
import MultiPortConvertor.Uart.History
import MultiPortConvertor.Uart.Transmit
import MultiPortConvertor.Uart.TransmitQueues
import MultiPortConvertor.Uart.Ownership
import MultiPortConvertor.Uart.Refinement
import MultiPortConvertor.Uart.Release
import MultiPortConvertor.Uart.Acknowledge
import MultiPortConvertor.Uart.Delivery
import MultiPortConvertor.Uart.Exhaustion
import MultiPortConvertor.Uart.Sequence
import MultiPortConvertor.Uart.Interleaving
import MultiPortConvertor.Uart.Separation
import MultiPortConvertor.Uart.Answers
import MultiPortConvertor.Uart.Corruption
import MultiPortConvertor.Uart.UploadRecord
import MultiPortConvertor.Lib.Scanf
import MultiPortConvertor.Lib.Transfers
import MultiPortConvertor.Net.HttpProtocol
import MultiPortConvertor.Net.UploadResult
import MultiPortConvertor.Net.Online
import MultiPortConvertor.Net.ServerTime
import MultiPortConvertor.Usb.HidData
import MultiPortConvertor.Usb.HidText
import MultiPortConvertor.Usb.HidBounds
import MultiPortConvertor.Usb.HidTasks
import MultiPortConvertor.Usb.HidAttribution
import MultiPortConvertor.Usb.HidFlush
import MultiPortConvertor.Usb.HidPool
import MultiPortConvertor.Uart.TimeZone
import MultiPortConvertor.Uart.StaleRecord
import MultiPortConvertor.Uart.Resync
import MultiPortConvertor.Uart.ReceiveBounds
import MultiPortConvertor.Net.LinkStatus
import MultiPortConvertor.Uart.ShortWrites
import MultiPortConvertor.Uart.Schedule
import MultiPortConvertor.Uart.Retransmission
import MultiPortConvertor.Uart.FreshEntries
import MultiPortConvertor.Tool.ClosedLists
import MultiPortConvertor.App.Incarnations
import MultiPortConvertor.Tool.ListOps
import MultiPortConvertor.Tool.FailedCreation
import MultiPortConvertor.Tool.PoolRuns
import MultiPortConvertor.Lib.Shell
import MultiPortConvertor.Uart.PrintText
import MultiPortConvertor.Usb.WifiParam
import MultiPortConvertor.Lib.Parsers
import MultiPortConvertor.Lib.Doubles
import MultiPortConvertor.Lib.Printf
import MultiPortConvertor.Tool.CJsonPrint
import MultiPortConvertor.Tool.CJsonParse
import MultiPortConvertor.Tool.CJsonStrings
import MultiPortConvertor.Tool.CJsonNumbers
import MultiPortConvertor.Tool.CJsonRoundTrip
import MultiPortConvertor.Tool.CJsonBounds
import MultiPortConvertor.Tool.CJsonPrefix
import MultiPortConvertor.Tool.CJsonPieces
import MultiPortConvertor.Net.Replies
import MultiPortConvertor.Net.PostedText
import MultiPortConvertor.Usb.Devices
import MultiPortConvertor.Tool.CJsonBlocks
import MultiPortConvertor.Lib.Heaps
import MultiPortConvertor.Tool.CJsonHeap
import MultiPortConvertor.Tool.CJsonOwned
import MultiPortConvertor.Tool.CJsonValues
import MultiPortConvertor.Tool.CJsonPrintMemory
import MultiPortConvertor.Net.UploadMemory
import MultiPortConvertor.Tool.CJsonParseMemory
import MultiPortConvertor.Net.ReplyMemory
