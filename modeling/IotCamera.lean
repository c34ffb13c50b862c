import IotCamera.Lib.Run
import IotCamera.Lib.Trace
import IotCamera.Lib.Ledger
import IotCamera.Lib.Channel
import IotCamera.Lib.Sync
import IotCamera.Lib.Critical
import IotCamera.Lib.Loop
import IotCamera.Lib.Search
import IotCamera.Lib.Sweep
import IotCamera.Lib.Picture
import IotCamera.Lib.CInt
import IotCamera.Lib.Memory
import IotCamera.Lib.Plane
import IotCamera.Lib.Scatter
import IotCamera.Lib.Raster
import IotCamera.Lib.Ring
import IotCamera.Lib.Packed
import IotCamera.Lib.CString
import IotCamera.Lib.Stores
import IotCamera.Lib.Nodes
import IotCamera.Lib.Flags
import IotCamera.Lib.Fallible
import IotCamera.Lib.Blocks
import IotCamera.Lib.Sha2
import IotCamera.Rtmp.Push
import IotCamera.Rtmp.Threads
import IotCamera.Rtsp.AnnexB
import IotCamera.Rtsp.H264File
import IotCamera.Pcm.Queue
import IotCamera.Json.Item
import IotCamera.Json.Parse
import IotCamera.Json.Print
import IotCamera.Json.Minify
import IotCamera.Json.Grammar
import IotCamera.Json.Heap
import IotCamera.Mqtt.Client
import IotCamera.Mqtt.Process
import IotCamera.Mqtt.Alloc
import IotCamera.Mqtt.Auth
import IotCamera.Thermal.Frames
import IotCamera.Thermal.Control
import IotCamera.Thermal.Temperature
import IotCamera.Thermal.Palette
import IotCamera.Thermal.Callback
import IotCamera.Thermal.Capture
import IotCamera.Common.Profile
import IotCamera.Common.Yuv
import IotCamera.Common.Bandwidth
import IotCamera.Serial.Echo
import IotCamera.Serial.Port
import IotCamera.Main.Config
import IotCamera.Main.Settings
import IotCamera.Proofs.RtmpHandle
import IotCamera.Proofs.RtmpStop
import IotCamera.Proofs.RtmpThreads
import IotCamera.Proofs.RtmpRace
import IotCamera.Proofs.RtmpBroken
import IotCamera.Proofs.QueueMoves
import IotCamera.Proofs.QueueFifo
import IotCamera.Proofs.QueueWake
import IotCamera.Proofs.QueueDrained
import IotCamera.Proofs.QueueOrder
import IotCamera.Proofs.MqttLock
import IotCamera.Proofs.MqttLive
import IotCamera.Proofs.MqttPayload
import IotCamera.Proofs.MqttReply
import IotCamera.Proofs.MqttJson
import IotCamera.Proofs.MqttAlloc
import IotCamera.Proofs.JsonStrings
import IotCamera.Proofs.JsonLiterals
import IotCamera.Proofs.JsonParse
import IotCamera.Proofs.JsonTexts
import IotCamera.Proofs.JsonCut
import IotCamera.Proofs.JsonWhole
import IotCamera.Proofs.JsonBuffer
import IotCamera.Proofs.JsonPrint
import IotCamera.Proofs.JsonPrinted
import IotCamera.Proofs.JsonRoundTrip
import IotCamera.Proofs.JsonMinify
import IotCamera.Proofs.JsonMinified
import IotCamera.Proofs.ThermalOpen
import IotCamera.Proofs.ThermalControl
import IotCamera.Proofs.ThermalLedger
import IotCamera.Proofs.ThermalFilter
import IotCamera.Proofs.ThermalLarge
import IotCamera.Proofs.ThermalRing
import IotCamera.Proofs.ThermalMean
import IotCamera.Proofs.ThermalGuard
import IotCamera.Proofs.ThermalReads
import IotCamera.Proofs.ThermalWorking
import IotCamera.Proofs.ThermalFormat
import IotCamera.Proofs.ThermalCopy
import IotCamera.Proofs.ThermalRotation
import IotCamera.Proofs.ThermalPalette
import IotCamera.Proofs.ThermalBands
import IotCamera.Proofs.ThermalColours
import IotCamera.Proofs.ThermalOutput
import IotCamera.Proofs.ThermalResult
import IotCamera.Proofs.YuvPlanes
import IotCamera.Proofs.YuvBlocks
import IotCamera.Proofs.ConfigPersist
import IotCamera.Proofs.ConfigFailures
import IotCamera.Proofs.ConfigRepair
import IotCamera.Proofs.ProfileScan
import IotCamera.Proofs.ProfileBuffer
import IotCamera.Proofs.ProfileLines
import IotCamera.Proofs.Settings
import IotCamera.Proofs.ProfileTokens
import IotCamera.Proofs.Bandwidth
import IotCamera.Proofs.SerialEcho
import IotCamera.Proofs.SerialPort
import IotCamera.Proofs.H264Scan
import IotCamera.Proofs.H264Pieces
import IotCamera.Proofs.H264Whole
import IotCamera.Proofs.AuthSha
import IotCamera.Proofs.AuthSign
