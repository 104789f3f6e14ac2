import PanelTester.FileSync.SyncRun
import PanelTester.MsOS.Apartment
import PanelTester.MsOS.EventTimeout
import PanelTester.MsOS.EventWait
import PanelTester.MsOS.QueueSafety
import PanelTester.PackSocket.Integrity
import PanelTester.PackSocket.Interleave
import PanelTester.PackSocket.Reconnect
import PanelTester.Uart.Loss
import PanelTester.Mipi.LongWrite
import PanelTester.Mipi.Callers
import PanelTester.Otp.BurnGuard
import PanelTester.Fpga.MovePtn
import PanelTester.Threadpool.Destroy
import PanelTester.FileSync.LoopDeque
import PanelTester.Serial.Scanner
import PanelTester.Lcd.Probes
import PanelTester.Icm.CheckVcom
import PanelTester.Mipi.AutoFlick
import PanelTester.Mipi.FlickResult
import PanelTester.Uart.Accepts
import PanelTester.PackSocket.Reback
import PanelTester.PackSocket.SendSocketCmd
import PanelTester.PackSocket.Resume
import PanelTester.Mipi.CompilerSafety
import PanelTester.Mipi.ConfigPara
import PanelTester.MsOS.QueueFailure
import PanelTester.Gamma.RegText
import PanelTester.Gamma.Config
import PanelTester.MsOS.EventGroups
import PanelTester.MsOS.Timer
import PanelTester.Update.Container
import PanelTester.PgDB.LifeCycle
import PanelTester.Mipi.RealtimeControl
import PanelTester.PackSocket.FifoQueue
import PanelTester.Common.ListApi
import PanelTester.Uart.PushBack
import PanelTester.Fpga.PicData
import PanelTester.Power.Upgrade
import PanelTester.Lcd.Reply
import PanelTester.Util.BitmapDepths
import PanelTester.Json.Minify
import PanelTester.Json.Buffered
import PanelTester.Json.Children
import PanelTester.Ini.Dictionary
import PanelTester.Ini.Parser
import PanelTester.Ini.Load
import PanelTester.Ini.RoundTrip
import PanelTester.Ini.Sync
