import FengShui.Transport.Channel
import Mathlib.Data.Nat.Bitwise
import Mathlib.Tactic.Ring

/-!
# The user data of an operation (`constants.h`, `transport.c` and `transport.dart` of `transport`)

The native functions put the descriptor, the buffer and the event of an operation into 64 bits, and
`_process` takes them apart again. The parameter `buffer_id` has 16 bits.
-/

namespace FengShui.Transport

def transportEventAccept : ℕ := 1 <<< 4

def transportEventClient : ℕ := 1 <<< 6

def transportEventFile : ℕ := 1 <<< 7

def transportEventServer : ℕ := 1 <<< 8

/-- `transportEventRead`, `…Write`, `…ReceiveMessage`, `…SendMessage` and `…Connect`. -/
def Event.bit : Event → ℕ
  | read => 1 <<< 0
  | write => 1 <<< 1
  | receiveMessage => 1 <<< 2
  | sendMessage => 1 <<< 3
  | connect => 1 <<< 5

/-- The bit that the channels of a class give with their events. -/
def Kind.bit : Kind → ℕ
  | client => transportEventClient
  | serverConnection | server => transportEventServer
  | file => transportEventFile

/-- `data` of `transport_read`, `transport_write`, `transport_send_message` and
`transport_receive_message`; of `transport_connect` and `transport_accept` without a buffer. -/
def userData (fd bufferId event : ℕ) : ℕ :=
  ((fd % 2 ^ 32) <<< 32 ||| (bufferId % 2 ^ 16) <<< 16) ||| event % 2 ^ 16

namespace UserData

/-- `data & 0xffff`. -/
def event (data : ℕ) : ℕ := data &&& 0xffff

/-- `(data >> 32) & 0xffffffff`. -/
def fd (data : ℕ) : ℕ := (data >>> 32) &&& 0xffffffff

/-- `(data >> 16) & 0xffff`. -/
def bufferId (data : ℕ) : ℕ := (data >>> 16) &&& 0xffff

end UserData

/-- The three fields do not overlap, so that the disjunction is a sum. -/
theorem userData_eq (fd bufferId event : ℕ) : userData fd bufferId event =
    fd % 2 ^ 32 * 2 ^ 32 + bufferId % 2 ^ 16 * 2 ^ 16 + event % 2 ^ 16 := by
  have hevent : event % 2 ^ 16 < 2 ^ 16 := Nat.mod_lt _ (by decide)
  have hbuf : bufferId % 2 ^ 16 < 2 ^ 16 := Nat.mod_lt _ (by decide)
  have hlow : (bufferId % 2 ^ 16) <<< 16 < 2 ^ 32 := by
    rw [Nat.shiftLeft_eq]
    omega
  have hhigh : (fd % 2 ^ 32) <<< 32 ||| (bufferId % 2 ^ 16) <<< 16 =
      (fd % 2 ^ 32 * 2 ^ 16 + bufferId % 2 ^ 16) <<< 16 := by
    rw [← Nat.shiftLeft_add_eq_or_of_lt hlow, Nat.shiftLeft_eq, Nat.shiftLeft_eq, Nat.shiftLeft_eq]
    ring
  unfold userData
  rw [hhigh, ← Nat.shiftLeft_add_eq_or_of_lt hevent, Nat.shiftLeft_eq]
  ring

variable {fd bufferId event : ℕ}

/-- `_process` gets the event back. -/
theorem event_userData (h : event < 2 ^ 16) :
    UserData.event (userData fd bufferId event) = event := by
  unfold UserData.event
  rw [userData_eq, Nat.mod_eq_of_lt h, show 0xffff = 2 ^ 16 - 1 from rfl,
    Nat.and_two_pow_sub_one_eq_mod]
  omega

/-- `_process` gets the buffer back if its id has 16 bits. -/
theorem bufferId_userData (h : bufferId < 2 ^ 16) :
    UserData.bufferId (userData fd bufferId event) = bufferId := by
  unfold UserData.bufferId
  rw [userData_eq, Nat.mod_eq_of_lt h, show 0xffff = 2 ^ 16 - 1 from rfl,
    Nat.and_two_pow_sub_one_eq_mod, Nat.shiftRight_eq_div_pow]
  omega

/-- `_process` gets the descriptor back. -/
theorem fd_userData (h : fd < 2 ^ 32) : UserData.fd (userData fd bufferId event) = fd := by
  unfold UserData.fd
  rw [userData_eq, Nat.mod_eq_of_lt h, show 0xffffffff = 2 ^ 32 - 1 from rfl,
    Nat.and_two_pow_sub_one_eq_mod, Nat.shiftRight_eq_div_pow]
  omega

end FengShui.Transport
