import Chip8.Cartridge
import Chip8.Clock
import Chip8.Command.Disassemble
import Chip8.Command.Folder
import Chip8.Command.Run
import Chip8.Command.Surroundings
import Chip8.Counter
import Chip8.Entropy
import Chip8.Fingerprint
import Chip8.Font
import Chip8.Image
import Chip8.Image.Png
import Chip8.Instr
import Chip8.Instr.Assembly
import Chip8.Instr.Kind
import Chip8.Keypad
import Chip8.Keypad.Script
import Chip8.Machine
import Chip8.Machine.Exec
import Chip8.Machine.Fault
import Chip8.Machine.Report
import Chip8.Main
import Chip8.Memory
import Chip8.Number
import Chip8.Options
import Chip8.Processor
import Chip8.ProgramCounter
import Chip8.Quantity
import Chip8.Screen
import Chip8.Screen.Recorder
import Chip8.Session
import Chip8.Session.Realtime
import Chip8.Settings
import Chip8.Tally
import Chip8.Text.Blank
import Chip8.Text.Decimal
import Chip8.Text.Numeral
import Chip8.Text.Quoted
import Chip8.Text.Radix
import Chip8.Text.Units
import Chip8.Tone
import Chip8.Proofs.Machine.Effect
import Chip8.Proofs.Machine.Devices
import Chip8.Proofs.Processor.Faults
import Chip8.Proofs.Machine.Stack
import Chip8.Proofs.Machine.Sound
import Chip8.Proofs.Session.Calls
import Chip8.Proofs.Session.Sound
import Chip8.Proofs.Bus
import Chip8.Proofs.Memory
import Chip8.Proofs.Number
import Chip8.Proofs.Keypad
import Chip8.Proofs.Session.Protection
import Chip8.Proofs.Clock.Delivery
import Chip8.Proofs.Clock.Order
import Chip8.Proofs.Clock.Ticks
import Chip8.Proofs.Clock.Schedule
import Chip8.Emulator
import Chip8.Proofs.Session.Account
import Chip8.Proofs.Session.Alike
import Chip8.Proofs.Session.Watched
import Chip8.Proofs.Emulator.Requests
import Chip8.Proofs.Emulator.Reset
import Chip8.Proofs.Emulator.KeyWait
import Chip8.Proofs.Session.HandOver
import Chip8.Proofs.Session.Advance
import Chip8.Proofs.Session.Signals
import Chip8.Proofs.Emulator.Tone
import Chip8.Proofs.Emulator.Stopping
import Chip8.Proofs.Session.Countdown
import Chip8.Proofs.Processor.CallStack
import Chip8.Proofs.Machine.Sprites
import Chip8.Proofs.Session.Observers
import Chip8.Proofs.Machine.Parts
import Chip8.Proofs.Machine.Flags
import Chip8.Proofs.Machine.SaveLoad
import Chip8.Proofs.Machine.Digits
import Chip8.Proofs.Session.FaultModes
import Chip8.Proofs.Session.Pacing
import Chip8.Proofs.Processor.Flow
import Chip8.Proofs.Processor.Writes
import Chip8.Proofs.Keypad.Changes
import Chip8.Proofs.Text.Radix
import Chip8.Proofs.Instr.Assembly
import Chip8.Proofs.Instr.Listing
import Chip8.Proofs.Distinct
import Chip8.Proofs.Tally
import Chip8.Proofs.Processor.Unknowns
import Chip8.Proofs.Session.Journal
import Chip8.Proofs.Session.Warnings
import Chip8.Proofs.Emulator.Unknowns
import Chip8.Proofs.Text.Blank
import Chip8.Proofs.Keypad.Script
import Chip8.Proofs.Number.Bits
import Chip8.Proofs.Settings
import Chip8.Proofs.Session.Realtime
import Chip8.Proofs.Command.Run
import Chip8.Proofs.Session.Trace
import Chip8.Proofs.Emulator.Trace
import Chip8.Proofs.Image
import Chip8.Proofs.Screen.Renderings
import Chip8.Proofs.Fingerprint
import Chip8.Proofs.Options
import Chip8.Proofs.Counter
import Chip8.Proofs.Machine.Dump
