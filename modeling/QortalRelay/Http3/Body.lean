import QortalRelay.Http3.Frames

/-!
# Reading a request stream after its headers

What a handler reads from a stream it has taken over: `Stream.Read` takes the frames apart and hands
on the contents of the DATA frames, and `skipCapsules` throws away the capsules in them. Both go
through the stream byte by byte. The capsules end only with an error of the stream below. The frames
can also end with an error of their own, at a frame that the client may not send there
(`BodyReader.forbids_of_receive_stop`).
-/

set_option autoImplicit false
set_option relaxedAutoImplicit false

namespace QortalRelay.Http3

/-! ### Frames after the headers -/

/-- The limits and the decoder that the server gives to `decodeTrailers`. -/
structure TrailerConfig where
  maxHeaderBytes : ℕ
  accepts : List UInt8 → Bool

/-- Where the reader of a body is: in a frame header, in the data of a frame or in a trailer. -/
inductive BodyPart
  | frame (parse : Parse)
  | data (left : ℕ)
  | trailer (left : ℕ) (read : List UInt8)
deriving DecidableEq

/-- The reader of the body of a request. After a trailer neither data nor another trailer may
follow. -/
structure BodyReader where
  part : BodyPart
  parsedTrailer : Bool
deriving DecidableEq

/-- What a byte of the stream comes to: it is used up, it is handed on, or the read fails. -/
inductive BodyRead
  | more (reader : BodyReader)
  | deliver (reader : BodyReader)
  /-- With the connection closed or not. -/
  | stop (closesConn : Bool)
deriving DecidableEq

namespace BodyReader

def new : BodyReader := ⟨.frame .start, false⟩

/-- The fields of the trailer have been read. -/
def trailed (config : TrailerConfig) (block : List UInt8) : BodyRead :=
  if config.accepts block then .more ⟨.frame .start, true⟩ else .stop false

/-- A frame has been parsed. After a DATA frame without contents a read of no bytes follows, which
reports what the next read reports. -/
def parsed (config : TrailerConfig) (parsedTrailer : Bool) :
    Except ParseError Frame → BodyRead
  | .error .priorityUpdateForPush | .error .reserved => .stop true
  | .error _ => .stop false
  | .ok (.data length) =>
    if parsedTrailer then .stop false
    else if length = 0 then .more ⟨.frame .start, parsedTrailer⟩
    else .more ⟨.data length, parsedTrailer⟩
  | .ok (.headers length) =>
    if parsedTrailer then .stop false
    else if length > config.maxHeaderBytes then .stop false
    else if length = 0 then trailed config []
    else .more ⟨.trailer length [], true⟩
  | .ok _ => .stop true

/-- Reads one byte of the stream, with which a read error may come. -/
def receive (config : TrailerConfig) (reader : BodyReader) (byte : UInt8)
    (error : Option ReadError) : BodyRead :=
  match reader.part with
  | .frame parse =>
    match parse.receive byte error with
    | .more parse => .more { reader with part := .frame parse }
    | .done result => parsed config reader.parsedTrailer result
  | .data left =>
    .deliver { reader with part := if left ≤ 1 then .frame .start else .data (left - 1) }
  | .trailer left read =>
    if left ≤ 1 then trailed config (read ++ [byte])
    else if error = none then .more { reader with part := .trailer (left - 1) (read ++ [byte]) }
    else .stop false

end BodyReader

/-! ### Capsules -/

/-- Where the reader of capsules is. -/
inductive Capsule
  | type (read : List UInt8)
  | length (read : List UInt8)
  | content (left : ℕ)
deriving DecidableEq

/-- A byte of the capsules; none when `skipCapsules` returns. An end of stream that comes with a
byte of an integer or with the last byte of a capsule is found by the next read. -/
def Capsule.receive (capsule : Capsule) (byte : UInt8) (error : Option ReadError) :
    Option Capsule :=
  match capsule with
  | .type read =>
    if error = some .broken then none
    else
      match readVarint read byte with
      | .inl read => some (.type read)
      | .inr _ => some (.length [])
  | .length read =>
    if error = some .broken then none
    else
      match readVarint read byte with
      | .inl read => some (.length read)
      | .inr size => if size = 0 then some (.type []) else some (.content size)
  | .content left =>
    match error with
    | none => if left ≤ 1 then some (.type []) else some (.content (left - 1))
    | some .eof => if left ≤ 1 then some (.type []) else none
    | some .broken => none

/-! ### Frames that a client may not send -/

/-- A frame that ends the reading of a body, from a stream that has reported no error. -/
def forbiddenFrame (config : TrailerConfig) (parsedTrailer : Bool) :
    Except ParseError Frame → Bool
  | .error _ => true
  | .ok (.data _) => parsedTrailer
  | .ok (.headers length) =>
    parsedTrailer || decide (length > config.maxHeaderBytes) ||
      decide (length = 0) && !config.accepts []
  | .ok _ => true

/-- The byte completes a frame that the client may not send. -/
def BodyReader.forbids (config : TrailerConfig) (reader : BodyReader) (byte : UInt8) : Bool :=
  match reader.part with
  | .frame parse =>
    match parse.feed byte with
    | .more _ => false
    | .done result => forbiddenFrame config reader.parsedTrailer result
  | .data _ => false
  | .trailer left read => decide (left ≤ 1) && !config.accepts (read ++ [byte])

/-- Without an error of the stream the reading of a body ends only at a forbidden frame. -/
theorem BodyReader.forbids_of_receive_stop {config : TrailerConfig} {reader : BodyReader}
    {byte : UInt8} {closesConn : Bool} (h : reader.receive config byte none = .stop closesConn) :
    reader.forbids config byte = true := by
  have htrailed : ∀ block, trailed config block = .stop closesConn →
      config.accepts block = false := by
    intro block hblock
    unfold trailed at hblock
    split_ifs at hblock with haccepts
    exact Bool.eq_false_of_not_eq_true haccepts
  unfold receive at h
  unfold forbids
  split at h
  · next parse hpart =>
    simp only [Parse.receive] at h ⊢
    split at h
    · cases h
    · next result hfeed =>
      match result with
      | .error _ => rfl
      | .ok (.data length) =>
        simp only [parsed] at h
        split_ifs at h with htrailer
        exact htrailer
      | .ok (.headers length) =>
        simp only [parsed] at h
        simp only [forbiddenFrame]
        split_ifs at h with htrailer hlarge hempty
        · simp [htrailer]
        · simp [hlarge]
        · simp [hempty, htrailed [] h]
      | .ok .settings | .ok (.goAway _) | .ok (.priorityUpdate _) => rfl
  · cases h
  · next left read hpart =>
    simp only at h ⊢
    split_ifs at h with hlast
    simp [hlast, htrailed _ h]

/-- Without an error of the stream the capsules go on. -/
theorem Capsule.receive_ne_none (capsule : Capsule) (byte : UInt8) :
    capsule.receive byte none ≠ none := by
  cases capsule with
  | type read =>
    simp only [receive, reduceCtorEq, if_false]
    split <;> simp
  | length read =>
    simp only [receive, reduceCtorEq, if_false]
    split
    · simp
    · split_ifs <;> simp
  | content left =>
    simp only [receive]
    split_ifs <;> simp

end QortalRelay.Http3
