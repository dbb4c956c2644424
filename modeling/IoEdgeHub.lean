import IoEdgeHub.Proto.CrcBursts
import IoEdgeHub.Proto.FtpArgs
import IoEdgeHub.Proto.MbReads
import IoEdgeHub.Proto.MbSingles
import IoEdgeHub.Proto.UdpBounds
import IoEdgeHub.Firmware.CfgAgree
import IoEdgeHub.Firmware.CfgErase
import IoEdgeHub.Firmware.FlashShare
import IoEdgeHub.Firmware.FtpReplies
import IoEdgeHub.Firmware.FtpTransfer
import IoEdgeHub.Firmware.FwCan
import IoEdgeHub.Firmware.FwKeyhash
import IoEdgeHub.Firmware.FwUdp
import IoEdgeHub.Firmware.Gateway
import IoEdgeHub.Firmware.Handshake
import IoEdgeHub.Firmware.Heartbeat
import IoEdgeHub.Firmware.HistLatest
import IoEdgeHub.Firmware.HttpReplies
import IoEdgeHub.Firmware.IpEntry
import IoEdgeHub.Firmware.LocalTime
import IoEdgeHub.Firmware.NorRuns
import IoEdgeHub.Firmware.Recorder
import IoEdgeHub.Firmware.RegRuns
import IoEdgeHub.Firmware.ShellBounds
import IoEdgeHub.Firmware.ShellHistory
import IoEdgeHub.Firmware.StorageFence
import IoEdgeHub.Firmware.UdpTask
import IoEdgeHub.Firmware.WebTime
import IoEdgeHub.Firmware.WsOutput
import IoEdgeHub.Firmware.WsSegments
