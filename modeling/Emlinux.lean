import Emlinux.Blk.Cache
import Emlinux.Blk.Request
import Emlinux.Blk.Sector
import Emlinux.Blk.WriteBack
import Emlinux.Boot.Image
import Emlinux.Boot.Load
import Emlinux.Codec.Thread
import Emlinux.Dma.Channel
import Emlinux.Dma.Legal
import Emlinux.Dma.Owner
import Emlinux.Fb.Driver
import Emlinux.Fb.Geometry
import Emlinux.Fb.Lcdc
import Emlinux.Fb.Rotation
import Emlinux.Gpio.Checks
import Emlinux.Gpio.Debounce
import Emlinux.Gpio.Dev
import Emlinux.Gpio.Edges
import Emlinux.Gpio.Irq
import Emlinux.Gpio.Line
import Emlinux.Gpio.Pins
import Emlinux.Gpio.Rest
import Emlinux.Gpt.Delay
import Emlinux.Gpt.Timer
import Emlinux.Gpt.Usage
import Emlinux.I2c.Accept
import Emlinux.I2c.Master
import Emlinux.I2c.Sequence
import Emlinux.Lib.CString
import Emlinux.Lib.Calls
import Emlinux.Lib.Divider
import Emlinux.Lib.Exchange
import Emlinux.Lib.Field
import Emlinux.Lib.Halving
import Emlinux.Lib.Laid
import Emlinux.Lib.Lap
import Emlinux.Lib.Ledger
import Emlinux.Lib.Prog
import Emlinux.Lib.Raster
import Emlinux.Lib.Ring
import Emlinux.Lib.Run
import Emlinux.Lib.Slots
import Emlinux.Lib.Splice
import Emlinux.Lib.Word
import Emlinux.Nfc.Buffer
import Emlinux.Nfc.Ecc
import Emlinux.Nftl.Account
import Emlinux.Nftl.Blocks
import Emlinux.Nftl.Budget
import Emlinux.Nftl.Contract
import Emlinux.Nftl.Convert
import Emlinux.Nftl.DataLog
import Emlinux.Nftl.Discipline
import Emlinux.Nftl.Format
import Emlinux.Nftl.FreeSearch
import Emlinux.Nftl.Garbage
import Emlinux.Nftl.Head
import Emlinux.Nftl.Image
import Emlinux.Nftl.LogList
import Emlinux.Nftl.LogMap
import Emlinux.Nftl.LogTab
import Emlinux.Nftl.Logs
import Emlinux.Nftl.Map
import Emlinux.Nftl.MapInv
import Emlinux.Nftl.MapMove
import Emlinux.Nftl.MapOps
import Emlinux.Nftl.MapRun
import Emlinux.Nftl.MapSpec
import Emlinux.Nftl.Merge
import Emlinux.Nftl.Mount
import Emlinux.Nftl.MountRoles
import Emlinux.Nftl.MountScan
import Emlinux.Nftl.Moves
import Emlinux.Nftl.Nand
import Emlinux.Nftl.Overrun
import Emlinux.Nftl.Pool
import Emlinux.Nftl.Preserve
import Emlinux.Nftl.ReadSpec
import Emlinux.Nftl.Recovery
import Emlinux.Nftl.Remount
import Emlinux.Nftl.Roundtrip
import Emlinux.Nftl.Runs
import Emlinux.Nftl.Scan
import Emlinux.Nftl.Segments
import Emlinux.Nftl.Space
import Emlinux.Nftl.Store
import Emlinux.Nftl.Tables
import Emlinux.Nftl.Write
import Emlinux.Nftl.WriteError
import Emlinux.Nftl.WriteSpec
import Emlinux.Pcm.Alsa
import Emlinux.Pcm.Follow
import Emlinux.Pcm.Played
import Emlinux.Pcm.Position
import Emlinux.Pcm.Session
import Emlinux.Piu.Device
import Emlinux.Piu.Disp
import Emlinux.Piu.File
import Emlinux.Piu.FileHandles
import Emlinux.Piu.FileName
import Emlinux.Piu.FileReply
import Emlinux.Piu.Order
import Emlinux.Piu.Receive
import Emlinux.Piu.Send
import Emlinux.Piu.Slices
import Emlinux.Piu.UserLib
import Emlinux.Piu.Users
import Emlinux.Rtc.Alarm
import Emlinux.Rtc.Clock
import Emlinux.Rtc.Driver
import Emlinux.Scrm.Clock
import Emlinux.Scrm.Cpufreq
import Emlinux.Scrm.Pll
import Emlinux.Sdhc.Clock
import Emlinux.Sdhc.Command
import Emlinux.Sdhc.Encode
import Emlinux.Sdhc.Pio
import Emlinux.Sdhc.Scatter
import Emlinux.Sdhc.Stale
import Emlinux.Sdhc.Timeout
import Emlinux.Sdhc.Unmap
import Emlinux.Sdhc.Watch
import Emlinux.Spi.Config
import Emlinux.Spi.Divider
import Emlinux.Spi.Fifo
import Emlinux.Spi.Matching
import Emlinux.Spi.Progress
import Emlinux.Spi.Resources
import Emlinux.Spi.Swap
import Emlinux.Spi.Worker
import Emlinux.Touch.Frames
import Emlinux.Touch.Thread
import Emlinux.Usb.Book
import Emlinux.Usb.Carve
import Emlinux.Usb.Control
import Emlinux.Usb.Enable
import Emlinux.Usb.Giveback
import Emlinux.Usb.Isr
import Emlinux.Usb.Kick
import Emlinux.Usb.Once
import Emlinux.Usb.Pio
import Emlinux.Usb.Rooted
import Emlinux.Usb.Serve
import Emlinux.Usb.Setup
import Emlinux.Usb.Stage
import Emlinux.Usb.Transfer
import Emlinux.Usb.Udc
