import EspTesting.ForStd.Loop
import EspTesting.ForStd.FiniteLoop
import EspTesting.ForStd.Memory
import EspTesting.ForStd.Vector
import EspTesting.ForStd.UInt
import EspTesting.ForStd.BoundedBuffer
import EspTesting.ForStd.Machine
import EspTesting.ForStd.SlotTable
import EspTesting.ForStd.SInt
import EspTesting.ForStd.ListStream
import EspTesting.ForStd.Flags
import EspTesting.ForStd.Labels
import EspTesting.ForStd.DnsMessage
import EspTesting.ForStd.Checksum
import EspTesting.Native.EspErr
import EspTesting.Native.BgcpQueue
import EspTesting.Native.BgcpParamTable
import EspTesting.Native.BgcpDataProcessor
import EspTesting.Native.BgcpTools
import EspTesting.Native.JsonHelper
import EspTesting.Native.DeviceHttpServer
import EspTesting.Native.I2cAsync
import EspTesting.Native.St25dv
import EspTesting.Native.St25dvNdef
import EspTesting.Native.I2cClients
import EspTesting.Native.Hdc1080
import EspTesting.Native.EventTimeManager
import EspTesting.Native.St25dvNdefWrite
import EspTesting.Native.HumidityAnalyzer
import EspTesting.Native.HumidityAnalyzerTest
import EspTesting.Native.FanFsm
import EspTesting.Native.OtaUpdateStream
import EspTesting.Native.EventManager
import EspTesting.Native.DeviceBits
import EspTesting.Native.WifiService
import EspTesting.Native.WifiMode
import EspTesting.Native.Device
import EspTesting.Native.ButtonReader
import EspTesting.Native.DnsServer
import EspTesting.Native.DeviceMemory
import EspTesting.Spec.BgcpWire
import EspTesting.Spec.BgcpQueueCorrect
import EspTesting.Spec.BgcpQueueAtomic
import EspTesting.Spec.BgcpHandlers
import EspTesting.Spec.BgcpEffect
import EspTesting.Spec.BgcpDecoder
import EspTesting.Spec.BgcpBind
import EspTesting.Spec.BgcpRoundTrip
import EspTesting.Spec.BgcpParseBounds
import EspTesting.Spec.BgcpValidity
import EspTesting.Spec.BgcpResponse
import EspTesting.Spec.BgcpMirror
import EspTesting.Spec.BgcpHistory
import EspTesting.Spec.JsonEndpoints
import EspTesting.Spec.JsonGroups
import EspTesting.Spec.JsonPost
import EspTesting.Spec.I2cTask
import EspTesting.Spec.I2cSendSync
import EspTesting.Spec.I2cCompletion
import EspTesting.Spec.I2cMaskedWrite
import EspTesting.Spec.St25dvByte
import EspTesting.Spec.NdefReadTermination
import EspTesting.Spec.I2cClientStep
import EspTesting.Spec.I2cOwnRequest
import EspTesting.Spec.I2cTimeout
import EspTesting.Spec.Hdc1080Polling
import EspTesting.Spec.EventTimeTick
import EspTesting.Spec.PeriodicSchedule
import EspTesting.Spec.PeriodicStop
import EspTesting.Spec.PeriodicDelivery
import EspTesting.Spec.NdefTag
import EspTesting.Spec.NdefStaging
import EspTesting.Spec.NdefAppend
import EspTesting.Spec.NdefRoundTrip
import EspTesting.Spec.HumidityBatch
import EspTesting.Spec.HumidityHostTest
import EspTesting.Spec.FanRunTime
import EspTesting.Spec.OtaRun
import EspTesting.Spec.OtaIntegrity
import EspTesting.Spec.OtaFragmentation
import EspTesting.Spec.BgcpParamMap
import EspTesting.Spec.BgcpIncrement
import EspTesting.Spec.BgcpBlockParam
import EspTesting.Spec.BgcpNumberZero
import EspTesting.Spec.BgcpFrame
import EspTesting.Spec.EventRegistry
import EspTesting.Spec.EventDispatch
import EspTesting.Spec.WifiStatus
import EspTesting.Spec.ButtonPress
import EspTesting.Spec.ButtonShift
import EspTesting.Spec.ButtonMultiPress
import EspTesting.Spec.DnsMatch
import EspTesting.Spec.DnsResponse
import EspTesting.Spec.DnsAnswer
import EspTesting.Spec.WifiRecord
import EspTesting.Spec.WifiCredentials
import EspTesting.Spec.DeviceSettings
import EspTesting.Spec.FlashHonest
import EspTesting.ForStd.Except
import EspTesting.ForStd.Json
import EspTesting.ForStd.JsonNumber
import EspTesting.Native.CJson
import EspTesting.Native.CJsonPrint
import EspTesting.Spec.CJsonString
import EspTesting.Spec.CJsonAccepts
import EspTesting.Spec.CJsonComplete
import EspTesting.Spec.CJsonPrint
import EspTesting.Spec.CJsonInts
import EspTesting.Spec.CJsonCorrect
import EspTesting.Native.JsonWire
import EspTesting.Spec.JsonWire
import EspTesting.Spec.JsonExchange
import EspTesting.Native.St25dvNdefJson
import EspTesting.Spec.NdefJson
import EspTesting.ForStd.LossyNetwork
import EspTesting.Spec.BgcpNetwork
import EspTesting.ForStd.Worker
import EspTesting.Spec.I2cSerial
import EspTesting.ForStd.Handles
import EspTesting.Native.UdpServer
import EspTesting.Native.UdpClient
import EspTesting.Spec.UdpServer
import EspTesting.Spec.UdpClient
import EspTesting.Native.St25dvBlock
import EspTesting.Spec.TagSerial
import EspTesting.Spec.TagSession
