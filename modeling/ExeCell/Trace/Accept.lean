import ExeCell.Trace.AddressText
import ExeCell.Trace.Descriptors

/-!
# Accepted peers

The kernel writes the address of the peer before `accept` returns, and its length to where the
third argument points. `on_entry` reads the address before that, and takes the pointer for the
length. So `NetworkAccepted` shows the peer exactly when the buffer has held its address all
along (`accept_reported_iff`).
-/

namespace ExeCell.Trace

open SyscallDecoder

/-- The characters of the memory are bytes. -/
def Octets (memory : Memory) : Prop :=
  ∀ address byte, memory address = some byte → byte.toNat < 256

/-- The `socklen_t` at the address. -/
def storedLength (memory : Memory) (address : Nat) : Option Nat :=
  (bytesAt memory address 4).map (List.foldr (fun byte value => byte.toNat + 256 * value) 0)

namespace Call

def accepts (call : Call) : Prop := call.number = Sys.accept ∨ call.number = Sys.accept4

/-- The address that the kernel has written by the exit, of the length that it has stored. -/
def peer (call : Call) : Option (List Char) :=
  (storedLength call.exit.memory call.entry.registers.rdx).bind fun length =>
    bytesAt call.exit.memory call.entry.registers.rsi (min length storageSize)

/-- What `on_entry` copies from the buffer, when it can: as many bytes as the pointer says. -/
def before (call : Call) : Option (List Char) :=
  let count := min call.entry.registers.rdx storageSize
  if WordsMapped call.entry.memory call.entry.registers.rsi count then
    bytesAt call.entry.memory call.entry.registers.rsi count
  else none

/-- The buffer has held the address all along, or the name of a socket that spells it out; where
it could not be read, the peer is a socket without a name. -/
def HeldBefore (call : Call) (peer : List Char) : Prop :=
  match call.before with
  | some before => SameAddress before peer ∨ Spells before peer ∨ Spells peer before
  | none => familyOf peer = afUnix ∧ nameOf peer = []

end Call

variable {pid : Pid} {call : Call} {table : FdTable} {memory : Memory} {bytes peer : List Char}
  {address count : Nat}

theorem complete_accepts (h : call.accepts) (hresult : 0 ≤ call.result) :
    (call.complete pid table).2 =
      some (.networkAccepted (toInt32 call.result) (onEntry pid call.entry).1.pendingEndpoint) := by
  unfold Call.accepts Call.number at h
  unfold Call.result at hresult ⊢
  rw [← onEntry_currentSyscall pid] at h
  rw [Call.complete, onExit]
  generalize (onEntry pid call.entry).1.currentSyscall = number at *
  iterate 4 rw [if_neg fun hc => absurd hc.1 (by rcases h with rfl | rfl <;> decide)]
  rw [if_pos ⟨h, hresult⟩]

theorem pendingEndpoint_accepts (h : call.accepts) (haddress : call.entry.registers.rsi ≠ 0)
    (hlength : call.entry.registers.rdx ≠ 0) :
    (onEntry pid call.entry).1.pendingEndpoint =
      readEndpoint call.entry.memory call.entry.registers.rsi call.entry.registers.rdx := by
  unfold Call.accepts Call.number at h
  rw [onEntry]
  dsimp only
  generalize (decodeFrame call.entry.registers).number = number at *
  iterate 3 rw [if_neg (by rcases h with rfl | rfl <;> decide)]
  rw [if_pos h]
  dsimp only
  rw [if_pos ⟨haddress, hlength⟩]

theorem readEndpoint_before :
    readEndpoint call.entry.memory call.entry.registers.rsi call.entry.registers.rdx =
      (call.before.map renderAddress).getD [] := by
  rw [Call.before]
  split
  · rename_i hwords
    obtain ⟨bytes, hlength, hheld⟩ := hwords.mapped.held
    rw [bytesAt_eq_some_iff.mpr ⟨hlength, hheld⟩]
    exact readEndpoint_of_held hheld hlength (by rw [hlength]; exact hwords)
  · rename_i hwords
    exact readEndpoint_of_unmapped hwords

theorem byteAt_lt (hmemory : Octets memory) (h : bytesAt memory address count = some bytes)
    (index : Nat) : byteAt bytes index < 256 := by
  obtain ⟨_, hheld⟩ := bytesAt_eq_some_iff.mp h
  rw [byteAt]
  rcases Nat.lt_or_ge index bytes.length with hlt | hge
  · have hat := hheld index hlt
    rw [List.getElem?_eq_getElem hlt] at hat ⊢
    exact hmemory _ _ hat
  · rw [List.getElem?_eq_none hge]
    decide

theorem byteAt_before_lt (hmemory : Octets call.entry.memory) (h : call.before = some bytes)
    (index : Nat) : byteAt bytes index < 256 := by
  rw [Call.before] at h
  split at h
  · exact byteAt_lt hmemory h index
  · cases h

theorem byteAt_peer_lt (hmemory : Octets call.exit.memory) (h : call.peer = some bytes)
    (index : Nat) : byteAt bytes index < 256 := by
  rw [Call.peer, Option.bind_eq_some_iff] at h
  obtain ⟨length, _, hbytes⟩ := h
  exact byteAt_lt hmemory hbytes index

/-- The peer of an `accept` is reported exactly when its address has stood in the buffer before
the kernel wrote it there. -/
theorem accept_reported_iff (pid : Pid) (call : Call) (table : FdTable) (peer : List Char)
    (h : call.accepts) (hresult : 0 ≤ call.result)
    (haddress : call.entry.registers.rsi ≠ 0) (hlength : call.entry.registers.rdx ≠ 0)
    (hpeer : call.peer = some peer) (hentry : Octets call.entry.memory)
    (hexit : Octets call.exit.memory) :
    (call.complete pid table).2 =
        some (.networkAccepted (toInt32 call.result) (renderAddress peer)) ↔
      call.HeldBefore peer := by
  rw [complete_accepts h hresult, Option.some.injEq, Payload.networkAccepted.injEq,
    and_iff_right rfl, pendingEndpoint_accepts h haddress hlength, readEndpoint_before,
    Call.HeldBefore]
  cases hbefore : call.before with
  | none =>
    rw [Option.map_none, Option.getD_none, eq_comm]
    exact renderAddress_eq_nil_iff
  | some before =>
    rw [Option.map_some, Option.getD_some]
    exact renderAddress_eq_iff (byteAt_before_lt hentry hbefore) (byteAt_peer_lt hexit hpeer)

/-- Memory from 4096 on that begins with the bytes. -/
def memoryOf (bytes : List Char) : Memory := fun address =>
  if address < 4096 then none else some ((bytes[address - 4096]?).getD '\x00')

/-- `sockaddr_in` of 192.0.2.1 with port 9, and its length behind it. -/
def peerFour : List Char :=
  ['\x02', '\x00', '\x00', '\x09', '\xc0', '\x00', '\x02', '\x01'] ++
    List.replicate 8 '\x00' ++ ['\x10', '\x00', '\x00', '\x00']

/-- An `accept` into the buffer at 4096. -/
def acceptCall (buffer : List Char) : Call where
  entry :=
    { registers := { origRax := 43, rdi := 3, rsi := 4096, rdx := 4112 }
      memory := memoryOf buffer }
  exit := { registers := { origRax := 43, rax := 5 }, memory := memoryOf peerFour }

theorem octets_memoryOf (h : ∀ byte ∈ bytes, byte.toNat < 256) : Octets (memoryOf bytes) := by
  intro address byte hbyte
  rw [memoryOf] at hbyte
  split at hbyte
  · cases hbyte
  · rw [Option.some.injEq] at hbyte
    rw [← hbyte]
    cases hat : bytes[address - 4096]? with
    | none => decide
    | some found => exact h found (List.mem_of_getElem? hat)

theorem accept_reported_iff_again :
    ((acceptCall peerFour).complete 7 {}).2 =
        some (.networkAccepted 5 (renderAddress (peerFour.take 16))) ↔
      (acceptCall peerFour).HeldBefore (peerFour.take 16) :=
  accept_reported_iff 7 (acceptCall peerFour) {} (peerFour.take 16) (Or.inl (by decide))
    (by decide) (by decide) (by decide) (by decide +kernel) (octets_memoryOf (by decide))
    (octets_memoryOf (by decide))

/-- In a zeroed buffer the peer is not seen. -/
theorem peerFour_misreported :
    (acceptCall []).accepts ∧ (acceptCall []).result = 5 ∧
      (acceptCall []).peer = some (peerFour.take 16) ∧
      renderAddress (peerFour.take 16) = "192.0.2.1:9".toList ∧
      ((acceptCall []).complete 7 {}).2 = some (.networkAccepted 5 "family=0".toList) := by
  refine ⟨Or.inl (by decide), by decide, by decide +kernel, by decide +kernel, by decide +kernel⟩

end ExeCell.Trace
