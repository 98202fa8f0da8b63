import EyPS.Runs
import EyPS.Atomic
import EyPS.SendKeys
import EyPS.Admission
import EyPS.KeySwitch
import EyPS.RecvBuffer
import EyPS.Isolation
import EyPS.Expiry
import EyPS.Authenticate
import EyPS.Account
import EyPS.IssuedKeys
import EyPS.Rotation
import EyPS.Script
import EyPS.Frame
import EyPS.SessionOrder
import EyPS.Accept
import EyPS.Pipeline
import EyPS.Drain
import EyPS.ComboToken
import EyPS.UniqueNames
import EyPS.UniqueIds
import EyPS.HttpSession
import EyPS.LoginBody
import EyPS.Grammar
import EyPS.IndexSafety
import EyPS.KeyPublication
import EyPS.RecvHead
import EyPS.Cursor
import EyPS.HandshakeReuse
import EyPS.KeyStream
import EyPS.ReaderBounds
import EyPS.SharedCursor
import EyPS.IdleTimeout
import EyPS.SleepTime
import EyPS.XorOverloads
import EyPS.PsConfig
import EyPS.Arq
import EyPS.KcpFlush
import EyPS.KcpInput
import EyPS.KcpDatagrams
import EyPS.SendWindow
import EyPS.Countdown
import EyPS.Fragments
import EyPS.RecvWindow
import EyPS.KcpLink
import EyPS.KcpSender
import EyPS.KcpReceiver
import EyPS.KcpDelivery
import EyPS.KcpProgress
import EyPS.KcpFinish
import EyPS.JsonReader
import EyPS.JsonLeaves
import EyPS.JsonNumbers
import EyPS.JsonParse
import EyPS.JsonFuel
import EyPS.JsonWriter
import EyPS.JsonWritten
import EyPS.JsonResponses
import EyPS.LoginFlow
import EyPS.PacketLink
import EyPS.ReceiveSide
