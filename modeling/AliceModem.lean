import AliceModem.Hwdefs
import AliceModem.Lib.Words
import AliceModem.Lib.ByteMemory
import AliceModem.Lib.BigEndian
import AliceModem.Lib.Transition
import AliceModem.Lib.Ownership
import AliceModem.Lib.Lfsr
import AliceModem.Kernel.Vsprintf
import AliceModem.Flash.Sectors
import AliceModem.Flash.Device
import AliceModem.Flash.SharedBlks
import AliceModem.Flash.Regions
import AliceModem.Board.Crc
import AliceModem.Board.CrcBits
import AliceModem.Board.Nvram
import AliceModem.Board.ImageTag
import AliceModem.Flash.Layout
import AliceModem.Flash.ScratchPad
import AliceModem.Flash.ConfigCopies
import AliceModem.Flash.ScratchPadMap
import AliceModem.Flash.ImageSet
import AliceModem.Flash.ImageTrace
import AliceModem.Board.Upgrade
import AliceModem.Board.CompletedUpgrade
import AliceModem.Board.InterruptedUpgrade
import AliceModem.Board.ReservedTail
import AliceModem.Board.StoredImages
import AliceModem.Board.Ioctl
import AliceModem.Board.MacPool
import AliceModem.Bridge.Snooping
import AliceModem.Bridge.ForwardLoop
import AliceModem.Bridge.SnoopTable
import AliceModem.Bridge.Reception
import AliceModem.Bridge.McForward
import AliceModem.Bridge.PortLifetime
import AliceModem.Lib.RingBuffer
import AliceModem.Lib.CString
import AliceModem.Lib.TextScan
import AliceModem.Lib.ShellWords
import AliceModem.Lib.Dns
import AliceModem.Lib.Escaping
import AliceModem.Xtm.Dma
import AliceModem.Xtm.Transmit
import AliceModem.Xtm.TransmitBuffers
import AliceModem.Xtm.TransmitRing
import AliceModem.Xtm.GlobalInit
import AliceModem.Xtm.ReceiveCell
import AliceModem.Xtm.Encapsulation
import AliceModem.Xtm.QueueMemory
import AliceModem.Kernel.Skbuff
import AliceModem.Xtm.Receive
import AliceModem.Xtm.ReceiveBuffers
import AliceModem.Xtm.ReceiveHeaders
import AliceModem.Xtm.Devices
import AliceModem.Xtm.DriverState
import AliceModem.Xtm.DeviceAddresses
import AliceModem.Netfilter.Esp
import AliceModem.Netfilter.EspTunnels
import AliceModem.Netfilter.EspTimer
import AliceModem.Netfilter.EspLookup
import AliceModem.Netfilter.EspLifetime
import AliceModem.Mips.Irq
import AliceModem.Mips.Time
import AliceModem.Mtd.Bcm963xx
import AliceModem.Mtd.Partitions
import AliceModem.Flash.ScratchPadFrame
import AliceModem.Flash.ScratchPadTokens
import AliceModem.Flash.ScratchPadKeep
import AliceModem.Flash.ScratchPadLoss
import AliceModem.Flash.ScratchPadRoom
import AliceModem.Flash.ScratchPadReads
import AliceModem.Flash.MixedLayout
import AliceModem.Flash.ScratchPadClear
import AliceModem.Flash.ImagePsi
import AliceModem.Flash.ImageFaults
import AliceModem.Flash.ImageSectors
import AliceModem.Flash.ImageResult
import AliceModem.Flash.Buffers
import AliceModem.Flash.BufferRelease
import AliceModem.Flash.CfiLock
import AliceModem.Flash.CfiWrite
import AliceModem.Atm.Rt2684
import AliceModem.Bridge.Disposal
import AliceModem.Bridge.Leave
import AliceModem.Bridge.NonIgmp
import AliceModem.Bridge.Delivery
import AliceModem.Bridge.TableRows
import AliceModem.Bridge.Expiry
import AliceModem.Bridge.Changes
import AliceModem.Bridge.ReportBytes
import AliceModem.Board.NvramBurst
import AliceModem.Board.Led
import AliceModem.Board.LedPins
import AliceModem.Board.DyingGasp
import AliceModem.Board.ResetButton
import AliceModem.Board.NvramProc
import AliceModem.Userapps.BoardApi
import AliceModem.Userapps.Syscall
import AliceModem.Userapps.AddressText
import AliceModem.Userapps.ShellQuote
import AliceModem.Userapps.Resolve
import AliceModem.Userapps.MarkChars
import AliceModem.Lib.SerialFlash
import AliceModem.Flash.SpiFlash
import AliceModem.Flash.SpiWrite
import AliceModem.Netfilter.EspNat
import AliceModem.Board.MacTable
import AliceModem.Xtm.QueueCarving
import AliceModem.Flash.SectorLookup
import AliceModem.Flash.CfiProbe
import AliceModem.Flash.SpiPage
import AliceModem.Bridge.Bpdu
import AliceModem.Bridge.Stp
import AliceModem.Bridge.StpOutput
import AliceModem.Bridge.StpSelection
import AliceModem.Bridge.StpRuns
import AliceModem.Bridge.StpDelay
import AliceModem.Bridge.StpSafety
import AliceModem.Bridge.StpNetwork
import AliceModem.Lib.ParentGraph
import AliceModem.Bridge.StpTree
