import Mathlib.Tactic

/-!
# Frames of a request stream

The frame parser of HTTP/3, `ParseNext`, as it takes the bytes of a stream one after the other. It
reads the type and the length of a frame byte by byte and the payloads it wants in full; frames of
unknown types are skipped. A read may report an error, also together with the last bytes it has: an
end of stream that comes with a single byte is dropped, and so is any error that comes with the last
byte of a payload (`Parse.receive`).
-/

set_option autoImplicit false
set_option relaxedAutoImplicit false

namespace QortalRelay.Http3

/-! ### Variable-length integers -/

/-- The number of bytes of an integer, from the first two bits of its first byte. -/
def varintLength (first : UInt8) : ℕ := 2 ^ (first.toNat / 64)

def varintValue : List UInt8 → ℕ
  | [] => 0
  | first :: rest => rest.foldl (fun n byte ↦ n * 256 + byte.toNat) (first.toNat % 64)

/-- `quicvarint.Read`, with the bytes read so far: it wants another byte or has the value. -/
def readVarint (read : List UInt8) (byte : UInt8) : List UInt8 ⊕ ℕ :=
  if (read ++ [byte]).length = varintLength (read.headD byte) then
    .inr (varintValue (read ++ [byte]))
  else .inl (read ++ [byte])

/-- `quicvarint.Parse`: the value and the rest of the buffer. -/
def parseVarint : List UInt8 → Option (ℕ × List UInt8)
  | [] => none
  | first :: rest =>
    if rest.length + 1 < varintLength first then none
    else some (varintValue (first :: rest.take (varintLength first - 1)),
      rest.drop (varintLength first - 1))

/-! ### Frames -/

/-- The frames that the parser returns, with what is read of them later. -/
inductive Frame
  | data (length : ℕ)
  | headers (length : ℕ)
  | settings
  | goAway (streamId : ℕ)
  | priorityUpdate (elementId : ℕ)
deriving DecidableEq

/-- What a read reports: the end of the stream, or a reset or the end of the connection. -/
inductive ReadError
  | eof
  | broken
deriving DecidableEq

/-- Why the parser returns no frame. -/
inductive ParseError
  | read (error : ReadError)
  | priorityUpdateForPush
  /-- A reserved frame type; the connection is closed. -/
  | reserved
  | malformed
deriving DecidableEq

def maxSettingsFrameSize : ℕ := 8 * 1024

def maxPriorityUpdateFrameSize : ℕ := 4 * 1024

def settingExtendedConnect : ℕ := 0x8

def settingDatagram : ℕ := 0x33

/-- The identifiers and values of a settings payload, at most as many as are asked for. -/
def settingsPairs : ℕ → List UInt8 → Option (List (ℕ × ℕ))
  | _, [] => some []
  | 0, _ => none
  | n + 1, buffer => do
    let (id, buffer) ← parseVarint buffer
    let (value, buffer) ← parseVarint buffer
    return (id, value) :: (← settingsPairs n buffer)

/-- `parseSettingsFrame` on its payload: no identifier twice, and flags that are 0 or 1. Every pair
takes two bytes, so there are no more pairs than bytes. -/
def parseSettings (buffer : List UInt8) : Except ParseError Frame :=
  match settingsPairs buffer.length buffer with
  | none => .error .malformed
  | some pairs =>
    if (pairs.map Prod.fst).Nodup ∧
        ∀ pair ∈ pairs, (pair.1 = settingExtendedConnect ∨ pair.1 = settingDatagram) → pair.2 ≤ 1
    then .ok .settings
    else .error .malformed

/-- `parsePriorityUpdateFrame` on its payload. -/
def parsePriorityUpdate (buffer : List UInt8) : Except ParseError Frame :=
  match parseVarint buffer with
  | none => .error .malformed
  | some (id, _) => .ok (.priorityUpdate id)

/-! ### The parser -/

/-- Where `ParseNext` stands. -/
inductive Parse
  | frameType (read : List UInt8)
  | frameLength (type : ℕ) (read : List UInt8)
  | skip (left : ℕ)
  | settings (left : ℕ) (read : List UInt8)
  | goAway (length : ℕ) (read : List UInt8)
  | priorityUpdate (left : ℕ) (read : List UInt8)
deriving DecidableEq

/-- The parser wants more bytes, or returns. -/
inductive Parsed
  | more (parse : Parse)
  | done (result : Except ParseError Frame)

namespace Parse

def start : Parse := frameType []

/-- What `ParseNext` does once it has the type and the length of a frame. -/
def header (type length : ℕ) : Parsed :=
  match type with
  | 0x0 => .done (.ok (.data length))
  | 0x1 => .done (.ok (.headers length))
  | 0x4 =>
    if length > maxSettingsFrameSize then .done (.error .malformed)
    else if length = 0 then .done (parseSettings [])
    else .more (settings length [])
  | 0x7 => .more (goAway length [])
  | 0xf0700 =>
    if length > maxPriorityUpdateFrameSize then .done (.error .malformed)
    else if length = 0 then .done (parsePriorityUpdate [])
    else .more (priorityUpdate length [])
  | 0xf0701 => .done (.error .priorityUpdateForPush)
  | 0x2 | 0x6 | 0x8 | 0x9 => .done (.error .reserved)
  | _ => if length = 0 then .more start else .more (skip length)

/-- The parser reads one byte, without an error. -/
def feed (parse : Parse) (byte : UInt8) : Parsed :=
  match parse with
  | frameType read =>
    match readVarint read byte with
    | .inl read => .more (frameType read)
    | .inr type => .more (frameLength type [])
  | frameLength type read =>
    match readVarint read byte with
    | .inl read => .more (frameLength type read)
    | .inr length => header type length
  | skip left => if left ≤ 1 then .more start else .more (skip (left - 1))
  | settings left read =>
    if left ≤ 1 then .done (parseSettings (read ++ [byte]))
    else .more (settings (left - 1) (read ++ [byte]))
  | goAway length read =>
    match readVarint read byte with
    | .inl read => .more (goAway length read)
    | .inr id =>
      if read.length + 1 = length then .done (.ok (.goAway id)) else .done (.error .malformed)
  | priorityUpdate left read =>
    if left ≤ 1 then .done (parsePriorityUpdate (read ++ [byte]))
    else .more (priorityUpdate (left - 1) (read ++ [byte]))

/-- Integers are read by the byte, payloads in full. -/
def byByte : Parse → Bool
  | frameType _ | frameLength _ _ | goAway _ _ => true
  | skip _ | settings _ _ | priorityUpdate _ _ => false

/-- A read that gives a byte and may report an error. -/
def receive (parse : Parse) (byte : UInt8) : Option ReadError → Parsed
  | none => parse.feed byte
  | some error =>
    if parse.byByte then
      if error = .eof then parse.feed byte else .done (.error (.read error))
    else
      match parse.feed byte with
      | .more rest => if rest.byByte then .more rest else .done (.error (.read error))
      | .done result => .done result

end Parse

end QortalRelay.Http3
