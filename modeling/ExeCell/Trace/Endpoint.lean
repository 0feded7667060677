import ExeCell.Trace.Memory

/-!
# Socket addresses

`read_endpoint` copies a socket address out of the tracee, word by word, and renders
it. The rendering of an address is `inet_ntop` of the C library: dotted decimal for
IPv4; for IPv6 eight groups of lower-case hexadecimal, the first longest run of at
least two zero groups replaced by `::`, and the last four bytes in dotted decimal when
the leading zero groups mark an embedded IPv4 address.
-/

namespace ExeCell.Trace

def afUnix : Nat := 1
def afInet : Nat := 2
def afInet6 : Nat := 10

/-- `sizeof(sockaddr_storage)`. -/
def storageSize : Nat := 128

/-- Byte `index` of the zero-initialised storage. -/
def byteAt (bytes : List Char) (index : Nat) : Nat := ((bytes[index]?).getD '\x00').toNat

/-- The 16-bit group at `index`, in network byte order. -/
def groupAt (bytes : List Char) (index : Nat) : Nat :=
  byteAt bytes index * 256 + byteAt bytes (index + 1)

/-- `inet_ntop(AF_INET, ...)` of the four bytes at `index`. -/
def inetNtop4 (bytes : List Char) (index : Nat) : Text :=
  List.intercalate ['.'] ((List.range 4).map fun i => Text.ofNat (byteAt bytes (index + i)))

/-- A run of zero groups: where it starts and how long it is. -/
structure ZeroRun where
  base : Nat
  len : Nat
  deriving DecidableEq

/-- The first longest run of zero groups seen so far, and the run that is still open. -/
def zeroRuns : List Nat → Nat → Option ZeroRun → Option ZeroRun → Option ZeroRun
  | [], _, current, best => longer current best
  | group :: rest, index, current, best =>
    if group = 0 then
      match current with
      | none => zeroRuns rest (index + 1) (some ⟨index, 1⟩) best
      | some run => zeroRuns rest (index + 1) (some { run with len := run.len + 1 }) best
    else zeroRuns rest (index + 1) none (longer current best)
where
  longer (current best : Option ZeroRun) : Option ZeroRun :=
    match current, best with
    | some run, none => some run
    | some run, some other => if run.len > other.len then some run else some other
    | none, best => best

/-- The run that `inet_ntop` abbreviates; a single zero group is printed. -/
def bestRun (groups : List Nat) : Option ZeroRun :=
  (zeroRuns groups 0 none none).filter fun run => 2 ≤ run.len

/-- A group in lower-case hexadecimal without leading zeros. -/
def hexGroup (group : Nat) : Text := Nat.toDigits 16 group

/-- The groups from `index` on. -/
def renderGroups (bytes : List Char) (offset : Nat) (groups : List Nat) (best : Option ZeroRun)
    (index : Nat) : Nat → Text
  | 0 => []
  | fuel + 1 =>
    let inRun := best.any fun run => run.base ≤ index && index < run.base + run.len
    let startsRun := best.any fun run => run.base = index
    let embedded := index = 6 ∧ best.any fun run =>
      run.base = 0 && (run.len = 6 || (run.len = 5 && groups[5]? = some 0xffff))
    if inRun then
      (if startsRun then [':'] else []) ++
        renderGroups bytes offset groups best (index + 1) fuel
    else
      (if index ≠ 0 then [':'] else []) ++
        if embedded then inetNtop4 bytes (offset + 12)
        else hexGroup ((groups[index]?).getD 0) ++
          renderGroups bytes offset groups best (index + 1) fuel

/-- `inet_ntop(AF_INET6, ...)` of the sixteen bytes at `offset`. -/
def inetNtop6 (bytes : List Char) (offset : Nat) : Text :=
  let groups := (List.range 8).map fun i => groupAt bytes (offset + 2 * i)
  let best := bestRun groups
  renderGroups bytes offset groups best 0 8 ++
    if best.any fun run => run.base + run.len = 8 then [':'] else []

/-- The copy loop of `read_endpoint`: `none` when some word cannot be read. -/
def copyStorage (memory : Memory) (address limit : Nat) : Nat → List Char → Option (List Char)
  | 0, bytes => some bytes
  | rounds + 1, bytes =>
    if bytes.length < limit then
      match peekData memory (address + bytes.length) with
      | none => none
      | some word => copyStorage memory address limit rounds
          (bytes ++ word.take (limit - bytes.length))
    else some bytes

/-- `read_endpoint`. -/
def readEndpoint (memory : Memory) (address length : Nat) : Text :=
  let limit := min length storageSize
  match copyStorage memory address limit (storageSize / wordSize) [] with
  | none => []
  | some copied =>
    let bytes := copied ++ List.replicate (storageSize - copied.length) '\x00'
    let family := byteAt bytes 0 + byteAt bytes 1 * 256
    if family = afInet then
      inetNtop4 bytes 4 ++ ':' :: Text.ofNat (groupAt bytes 2)
    else if family = afInet6 then
      '[' :: inetNtop6 bytes 8 ++ "]:".toList ++ Text.ofNat (groupAt bytes 2)
    else if family = afUnix then
      (bytes.drop 2).takeWhile (· ≠ '\x00')
    else "family=".toList ++ Text.ofNat family

end ExeCell.Trace
