import HandlingModule.Lib.Transition
import HandlingModule.Firmware.Main
import HandlingModule.Firmware.Receiver
import HandlingModule.Firmware.Streams
import HandlingModule.Serial.HandlingService
import HandlingModule.Serial.Line
import HandlingModule.Serial.Reader
import HandlingModule.Serial.Board
import HandlingModule.Serial.Transaction
import HandlingModule.Serial.Sequential
import HandlingModule.AIO.Json
import HandlingModule.AIO.CommunicationChannel
import HandlingModule.AIO.World
import HandlingModule.AIO.Listeners
import HandlingModule.AIO.Accounts
import HandlingModule.AIO.ExactlyOnce
import HandlingModule.AIO.Draining
import HandlingModule.Serial.Serializable
import HandlingModule.AIO.SharedLine
import HandlingModule.AIO.Reports
import HandlingModule.AIO.Robustness
import HandlingModule.AIO.Frames
import HandlingModule.AIO.Ordering
import HandlingModule.Lib.Polling
import HandlingModule.Serial.Waiting
import HandlingModule.Serial.MainTest
import HandlingModule.Serial.Descriptors
import HandlingModule.AIO.Registry
import HandlingModule.AIO.Identity
import HandlingModule.AIO.Barrier
import HandlingModule.AIO.CurrentSocket
import HandlingModule.AIO.Connection
import HandlingModule.AIO.Registration
import HandlingModule.AIO.Pauses
import HandlingModule.Serial.Remaining
import HandlingModule.AIO.StdMap
import HandlingModule.AIO.Completion
import HandlingModule.AIO.Settled
import HandlingModule.Lib.Munch
import HandlingModule.Json.Lexeme
import HandlingModule.Json.Scan
import HandlingModule.Json.Tokens
import HandlingModule.Json.Strings
import HandlingModule.Json.Numbers
import HandlingModule.Json.Parse
import HandlingModule.Json.Grammar
import HandlingModule.Json.Accepted
import HandlingModule.Json.Refused
import HandlingModule.Json.Dump
import HandlingModule.Json.RoundTrip
import HandlingModule.AIO.Wire
import HandlingModule.Rapidjson.Reader
import HandlingModule.Rapidjson.RoundTrip
import HandlingModule.Sio.Carried
import HandlingModule.Sio.Delivery
import HandlingModule.Sio.Sending
import HandlingModule.Sio.Order
import HandlingModule.Sio.Acks
import HandlingModule.AIO.Heard
