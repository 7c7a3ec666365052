import HgicFmac.Lib.Run
import HgicFmac.Lib.Mem
import HgicFmac.Lib.Jobs
import HgicFmac.Lib.Checksum
import HgicFmac.Lib.Pool
import HgicFmac.Lib.Fifo
import HgicFmac.Lib.Loop
import HgicFmac.Lib.Bits
import HgicFmac.Lib.Blocks
import HgicFmac.Lib.Crc
import HgicFmac.Lib.CrcMsb
import HgicFmac.Core.Remove
import HgicFmac.MmcSpi.Request
import HgicFmac.Lib.Fragments
import HgicFmac.Fwinfo.Checksum
import HgicFmac.Fwctrl.Match
import HgicFmac.Fwctrl.Owner
import HgicFmac.Fwctrl.Bytes
import HgicFmac.Ota.Cookie
import HgicFmac.Ota.StripTail
import HgicFmac.Bootdl.LastCookie
import HgicFmac.Core.Order
import HgicFmac.Core.Sleep
import HgicFmac.Core.Transparent
import HgicFmac.Core.TxWnd
import HgicFmac.Core.TxCtrl
import HgicFmac.Core.ByteOrder
import HgicFmac.Core.OnWire
import HgicFmac.Event.Sema
import HgicFmac.Event.Queue
import HgicFmac.Usb.Slots
import HgicFmac.Usb.Probe
import HgicFmac.Sdio.Probe
import HgicFmac.Sdio.ReinitAgrees
import HgicFmac.Sdio.Rx
import HgicFmac.Fwdl.Enter
import HgicFmac.Fwdl.Cover
import HgicFmac.Fwdl.Reload
import HgicFmac.Fwdl.Reads
import HgicFmac.Fwdl.RspCheck
import HgicFmac.Core.SoftFc
import HgicFmac.SendFw.Turns
import HgicFmac.SendFw.CheckSum
import HgicFmac.SendFw.Release
import HgicFmac.Hgota.Covered
import HgicFmac.Hgota.Retry
import HgicFmac.Hgota.Table
import HgicFmac.Hgota.Leftover
import HgicFmac.Hgota.SameSum
import HgicFmac.Hgota.ReadFw
import HgicFmac.Netat.Cli
import HgicFmac.Netat.Fragments
import HgicFmac.Iwpriv.SetSafe
import HgicFmac.Iwpriv.Inside
import HgicFmac.Iwpriv.DoInside
import HgicFmac.Iwpriv.WkdataMask
import HgicFmac.Iwpriv.LoadConfig
import HgicFmac.Iwpriv.IntSetters
import HgicFmac.Iwpriv.Rmesh
import HgicFmac.Iwpriv.PairedStas
import HgicFmac.BusBytes.Stale
import HgicFmac.RxData.Ends
import HgicFmac.RxData.Bounds
import HgicFmac.RxData.Deliver
import HgicFmac.RxData.Beyond
