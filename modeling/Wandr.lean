import Wandr.Lib.Bus
import Wandr.Lib.Text
import Wandr.Lib.Trace
import Wandr.Arbiter.Shell
import Wandr.Arbiter.Wm
import Wandr.Arbiter.Alarm
import Wandr.Arbiter.Notify
import Wandr.Arbiter.Power
import Wandr.Arbiter.Keyguard
import Wandr.Arbiter.Sensors
import Wandr.Arbiter.EventBroker
import Wandr.Arbiter.Audio
import Wandr.Arbiter.Net
import Wandr.Arbiter.MediaSession
import Wandr.Arbiter.Registry
import Wandr.Arbiter.Daemon
import Wandr.Arbiter.Footprint
import Wandr.Arbiter.Conduct
import Wandr.Arbiter.Panel
import Wandr.Arbiter.Runs
import Wandr.Arbiter.Calls
import Wandr.Arbiter.LiveCall
import Wandr.Arbiter.Session
import Wandr.Arbiter.Stage
import Wandr.Arbiter.Shell.Moves
import Wandr.Arbiter.Discipline
import Wandr.Arbiter.Focus
import Wandr.Arbiter.Switches
import Wandr.Arbiter.Execution
import Wandr.Arbiter.Wakes
import Wandr.Arbiter.Presence
import Wandr.Arbiter.Cleanup
import Wandr.Arbiter.Fallback
import Wandr.Arbiter.Doze
import Wandr.Arbiter.PowerKey
import Wandr.Arbiter.Persist
import Wandr.Arbiter.StateFile
import Wandr.Arbiter.Restart
import Wandr.Arbiter.SavedNets
import Wandr.Arbiter.Topics
import Wandr.Lib.Utf8
import Wandr.Lib.Words
import Wandr.Lib.Serial
import Wandr.Call.Twcc
import Wandr.StepExecutor
import Wandr.Arbiter.Base64
import Wandr.Arbiter.Wire
import Wandr.NetDaemon.Control
import Wandr.NetDaemon.LinkReport
import Wandr.NetDaemon.Credentials
import Wandr.NetDaemon.Agents
import Wandr.NetDaemon.OneLink
import Wandr.Call.Reassembly
import Wandr.Arbiter.Balance
import Wandr.Call.Keying
import Wandr.Call.Transport
import Wandr.Call.MediaPath
import Wandr.Call.Messages
import Wandr.Call.Session
import Wandr.Call.PeerState
import Wandr.Call.SignalCall
import Wandr.InputFlinger
import Wandr.Lib.Spans
import Wandr.Media.RangeReader
import Wandr.Media.SegStream
import Wandr.Lib.Loop
import Wandr.Media.Player
import Wandr.Media.Playing
import Wandr.Media.LookAhead
import Wandr.Media.EndOfStream
import Wandr.Media.Clock
import Wandr.Socket.TlsStream
import Wandr.Lib.Reads
import Wandr.Socket.WebSocket
import Wandr.Socket.Framing
import Wandr.Lib.First
import Wandr.Signal.Belongs
import Wandr.Signal.Restart
import Wandr.Lib.Ledger
import Wandr.Signal.Outbox
import Wandr.Lib.Purge
import Wandr.Signal.CallEngine
import Wandr.Signal.CallLoop
import Wandr.Canvas.Dom
import Wandr.Lib.Forest
import Wandr.Canvas.Reference
import Wandr.Canvas.Nodes
import Wandr.Canvas.Refine
import Wandr.Tetris.Game
import Wandr.Tetris.Integrity
import Wandr.AudioPlayer.Order
import Wandr.AudioPlayer.Decode
import Wandr.AudioPlayer.Reopen
import Wandr.AudioPlayer.Gapless
import Wandr.Navidrome.Client
import Wandr.Navidrome.Playing
import Wandr.Navidrome.Browse
import Wandr.Lib.Nesting
import Wandr.Markdown.Renderer
import Wandr.Markdown.Stream
import Wandr.Markdown.Blocks
import Wandr.Jellyfin.Client
import Wandr.Jellyfin.Player
import Wandr.Jellyfin.Sessions
import Wandr.Arbiter.AlarmTick
import Wandr.Lib.Fields
import Wandr.Arbiter.SavedFile
import Wandr.Arbiter.Shell.Promotion
import Wandr.Lib.StableSort
import Wandr.Arbiter.InputWindows
import Wandr.Arbiter.Backlight
import Wandr.Arbiter.StripGeometry
import Wandr.Call.TwccContent
import Wandr.Call.TwccDrift
import Wandr.Signal.Ui
import Wandr.Signal.Unread
import Wandr.Signal.Painted
import Wandr.Canvas.Renderer
import Wandr.Canvas.Targets
import Wandr.Call.Red
import Wandr.Lib.Slice
import Wandr.NetDaemon.Dhcp
import Wandr.Lib.Occurrences
import Wandr.NetDaemon.ScanSecurity
import Wandr.NetDaemon.SavedCreds
import Wandr.Lib.CommandLine
import Wandr.NetDaemon.Associate
import Wandr.Arbiter.NowPlaying
import Wandr.StepExecutor.Waits
import Wandr.Call.Accept
import Wandr.Call.Ends
import Wandr.Opus.RangeCoder
import Wandr.Call.RelayDemux
import Wandr.Media.Seek
import Wandr.Signal.ReadReceipts
import Wandr.Signal.PreKeyStore
import Wandr.Lib.BigEndian
import Wandr.Media.AnnexB
import Wandr.Media.CodecConfig
import Wandr.Media.Resampler
import Wandr.Canvas.Attributes
import Wandr.Canvas.WordWrap
import Wandr.Lib.Pull
import Wandr.Socket.Task
import Wandr.Http.Http1
import Wandr.Http.Message
import Wandr.Http.Head
import Wandr.Http.Body
import Wandr.Http.Receive
import Wandr.Socket.Codec
import Wandr.Dash.Manifest
import Wandr.Dash.Resolve
import Wandr.Arbiter.EncodedFields
import Wandr.Lib.ByteStream
import Wandr.VideoPlayer.AccessUnits
import Wandr.Lib.Lines
import Wandr.VideoPlayer.Srt
import Wandr.AudioPlayer.Onward
import Wandr.AudioPlayer.BadFiles
import Wandr.AudioPlayer.MovesOn
import Wandr.Opus.RoundTrip
import Wandr.Opus.Encoder
import Wandr.Opus.Packet
import Wandr.Opus.Decoder
import Wandr.Socket.Sending
import Wandr.Http.Request
