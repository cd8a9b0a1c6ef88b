import Famicom.Cartridge.Arena
import Famicom.Cartridge.Banks
import Famicom.Cartridge.Basic
import Famicom.Cartridge.Board
import Famicom.Cartridge.Board.Discrete
import Famicom.Cartridge.Board.Ffe
import Famicom.Cartridge.Board.Fixed
import Famicom.Cartridge.Board.Mmc1
import Famicom.Cartridge.Board.Mmc2
import Famicom.Cartridge.Board.Mmc3
import Famicom.Cartridge.Board.Wide
import Famicom.Cartridge.Image
import Famicom.Console.Basic
import Famicom.Console.Bus
import Famicom.Console.Event
import Famicom.Console.Load
import Famicom.Console.Routine
import Famicom.Console.Saving
import Famicom.Console.Settings
import Famicom.Console.Step
import Famicom.Cpu.AddressSpace
import Famicom.Cpu.Alu
import Famicom.Cpu.Basic
import Famicom.Cpu.Decode
import Famicom.Cpu.Execute
import Famicom.Cpu.Instruction
import Famicom.Cpu.Status
import Famicom.Cpu.Timing
import Famicom.Digest.Sha1
import Famicom.Json.Basic
import Famicom.Json.Decode
import Famicom.Json.Reader
import Famicom.Json.Token
import Famicom.Json.Writer
import Famicom.Patch.Code
import Famicom.Patch.Ledger
import Famicom.Snapshot.Apu
import Famicom.Snapshot.Basic
import Famicom.Snapshot.Cartridge
import Famicom.Snapshot.Cpu
import Famicom.Sound.Apu
import Famicom.Sound.Envelope
import Famicom.Sound.Length
import Famicom.Sound.Mixing
import Famicom.Sound.Noise
import Famicom.Sound.Pulse
import Famicom.Sound.Sequencer
import Famicom.Sound.Timer
import Famicom.Sound.Triangle
import Famicom.Text.Base64
import Famicom.Text.Blank
import Famicom.Text.Hex
import Famicom.Text.Real
import Famicom.Word
import Famicom.Proofs.Cpu.Matrix
import Famicom.Proofs.Cpu.Arithmetic
import Famicom.Proofs.Cpu.Refinement
import Famicom.Proofs.Cartridge.Acts
import Famicom.Proofs.Cartridge.Translation
import Famicom.Proofs.Patch.Layers
import Famicom.Proofs.Patch.History
import Famicom.Proofs.Patch.Effect
import Famicom.Proofs.Patch.Spelling
import Famicom.Proofs.Sound.Acts
import Famicom.Proofs.Sound.Checked
import Famicom.Proofs.Sound.Safety
import Famicom.Proofs.Sound.Memo
import Famicom.Proofs.Console.Computation
import Famicom.Proofs.Console.Resume
import Famicom.Proofs.Cpu.Uniform
import Famicom.Proofs.Console.Uniform
import Famicom.Proofs.Console.Routines
import Famicom.Proofs.Console.Reachable
import Famicom.Proofs.Console.Replay
import Famicom.Proofs.Cpu.Within
import Famicom.Proofs.Cpu.Cycles
import Famicom.Proofs.Cpu.Jams
import Famicom.Proofs.Cpu.Combined
import Famicom.Proofs.Cpu.IntegerLaws
import Famicom.Proofs.Cpu.Stack
import Famicom.Proofs.Cpu.StatusByte
import Famicom.Proofs.Console.Stepping
import Famicom.Proofs.Console.Interrupts
import Famicom.Proofs.Console.InterruptHistory
import Famicom.Proofs.Console.Metered
import Famicom.Proofs.Console.FrameDivision
import Famicom.Proofs.Console.Frames
import Famicom.Proofs.Console.FrameEvents
import Famicom.Proofs.Console.CycleCount
import Famicom.Proofs.Console.Boundaries
import Famicom.Proofs.Console.Firings
import Famicom.Proofs.Console.HostLoops
import Famicom.Proofs.Console.Jammed
import Famicom.Proofs.Cartridge.Saving
import Famicom.Proofs.Console.Failure
import Famicom.Proofs.Console.Holding
import Famicom.Proofs.Console.Tracks
import Famicom.Proofs.Console.Battery
import Famicom.Proofs.Sound.Still
import Famicom.Proofs.Sound.Beats
import Famicom.Proofs.Sound.Lengths
import Famicom.Proofs.Sound.Decay
import Famicom.Proofs.Sound.TimerRate
import Famicom.Proofs.Sound.Sweeping
import Famicom.Proofs.Sound.Isolation
import Famicom.Proofs.Console.BusAccesses
import Famicom.Proofs.Console.Tuning
import Famicom.Proofs.Console.Listening
import Famicom.Proofs.Text.Base64
import Famicom.Proofs.Json.Scanning
import Famicom.Proofs.Json.Reading
import Famicom.Proofs.Json.Written
import Famicom.Proofs.Json.Records
import Famicom.Proofs.Snapshot.Parts
import Famicom.Proofs.Snapshot.RoundTrip
import Famicom.Proofs.Console.Loading
import Famicom.Proofs.Cartridge.Boards
import Famicom.Proofs.Cartridge.SerialPort
import Famicom.Proofs.Cartridge.ScanlineCounter
import Famicom.Proofs.Cartridge.AddressLine
import Famicom.Proofs.Cartridge.LastBank
import Famicom.Proofs.Cartridge.BankSelection
import Famicom.Proofs.Cartridge.CycleCounter
import Famicom.Proofs.Cartridge.WorkRam
import Famicom.Proofs.Cartridge.WindowExchange
import Famicom.Proofs.Console.TileLatches
