import PieceEmu.Board.CommandHistory
import PieceEmu.Board.DirtyCallback
import PieceEmu.Core.Compare
import PieceEmu.Core.Deferral
import PieceEmu.Core.Disasm
import PieceEmu.Core.DebugReturn
import PieceEmu.Core.ShadowMap
import PieceEmu.Core.Watchpoints
import PieceEmu.Core.Division
import PieceEmu.Core.MacBounds
import PieceEmu.Core.MacExact
import PieceEmu.Core.Multiword
import PieceEmu.Core.StackFrames
import PieceEmu.Core.Wakeup
import PieceEmu.System.BoardMemory
import PieceEmu.Debug.GdbHandshake
import PieceEmu.Debug.GdbFraming
import PieceEmu.Debug.PfiLoader
import PieceEmu.Lib.FlatMemory
import PieceEmu.Soc.CalendarFreeze
import PieceEmu.Soc.CalendarSetting
import PieceEmu.Soc.PollSkip
import PieceEmu.Soc.SoundPlayback
import PieceEmu.Soc.SoundReset
import PieceEmu.Soc.TimerPace
import PieceEmu.Soc.WatchdogDrift
import PieceEmu.System.ByteWrites
import PieceEmu.System.ClockOrder
import PieceEmu.System.ClockRatio
import PieceEmu.System.FlushWindow
import PieceEmu.System.HaltLoop
import PieceEmu.System.CycleClock
import PieceEmu.Soc.IrqLevels
import PieceEmu.System.DebugRun
import PieceEmu.System.DisplayDma
import PieceEmu.System.PortClock
import PieceEmu.System.SaveRam
import PieceEmu.System.TrapBase
import PieceEmu.System.WakeCache
import PieceEmu.System.Debounce
import PieceEmu.Tools.PffsAtomic
import PieceEmu.Tools.PffsContents
import PieceEmu.Tools.PffsSurvival
import PieceEmu.Tools.Mkpfi
import PieceEmu.Tools.PfiOpen
import PieceEmu.Tools.PfiRoundTrip
import PieceEmu.Soc.PollChoice
import PieceEmu.Tools.NameSyntax
import PieceEmu.Debug.GdbTransfer
import PieceEmu.System.PictureStream
import PieceEmu.System.HeadlessScript
import PieceEmu.System.ScriptRun
import PieceEmu.System.RetroRun
import PieceEmu.System.FrameEnds
import PieceEmu.System.DmaShadow
import PieceEmu.System.SaveRamBounds
import PieceEmu.System.PfiSession
import PieceEmu.System.SaveRamCarry
import PieceEmu.System.FrameHash
import PieceEmu.Core.CallTree
import PieceEmu.Debug.Semihosting
import PieceEmu.Debug.GdbTarget
import PieceEmu.Debug.GdbRun
import PieceEmu.Host.AudioLog
import PieceEmu.System.LcdFrameBuf
import PieceEmu.Tools.Pfar
import PieceEmu.System.PlatformFile
import PieceEmu.System.FixedDate
import PieceEmu.Core.StrFmt
import PieceEmu.System.ButtonInput
import PieceEmu.Host.AudioOutput
