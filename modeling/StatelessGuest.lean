import StatelessGuest.Acceptance
import StatelessGuest.Portable
import StatelessGuest.Pinning
import StatelessGuest.Parent
import StatelessGuest.PostState
import StatelessGuest.OpenVm.Memmove
import StatelessGuest.Runtimes
import StatelessGuest.OutputWindow
import StatelessGuest.Accelerators.Modexp
import StatelessGuest.Accelerators.Bls12
import StatelessGuest.Accelerators.Secp256k1
import StatelessGuest.OpenVm.HintStream
import StatelessGuest.Riscv.Asm64
import StatelessGuest.Riscv.Copying
import StatelessGuest.Rv64.Listing
import StatelessGuest.Rv64.Memcpy
import StatelessGuest.Rv64.Memmove
import StatelessGuest.Guests
import StatelessGuest.Verifier
import StatelessGuest.Accelerators.OneShot
import StatelessGuest.Zisk.ElfSections
import StatelessGuest.Zisk.Entrypoint
import StatelessGuest.Sp1.Points
