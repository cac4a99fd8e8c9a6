import Chip8.Machine.Text
import Chip8.Proofs.Bare.Bounds
import Chip8.Proofs.Bare.Play
import Chip8.Proofs.Calls
import Chip8.Proofs.Decoding
import Chip8.Proofs.Loading
import Chip8.Proofs.Policy
import Chip8.Proofs.Report
import Chip8.Proofs.Reset
import Chip8.Proofs.Speaker
import Chip8.Proofs.Throughput
import Chip8.Proofs.Text.Machine
import Chip8.Screen.Text
import Chip8.Ticker
import Chip8.Proofs.Writes
import Chip8.Proofs.Noninterference
import Chip8.Proofs.Trace
import Chip8.SharedKeypads
import Chip8.Threads
import Chip8.Proofs.Keys
import Chip8.Proofs.SharedKeypads
import Chip8.Proofs.Threads
import Chip8.Proofs.Worker
import Chip8.Proofs.RandomBytes
import Chip8.Proofs.Screen.Balance
import Chip8.Proofs.Screen.Overlay
import Chip8.Proofs.Screen.Torus
import Chip8.Proofs.Arithmetic
import Chip8.Proofs.RegisterBlocks
import Chip8.Memory.Access
import Chip8.Proofs.Blocks
import Chip8.Proofs.Placement
