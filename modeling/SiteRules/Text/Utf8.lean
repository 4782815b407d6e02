import SiteRules.Text.Quoted

/-!
# UTF-8

Decoding of bytes into characters, which reports where and why it stopped, and encoding of texts,
which refuses surrogates.
-/

namespace SiteRules.Utf8

/-- Why a sequence of bytes is not UTF-8. -/
inductive Reason where
  | invalidStart
  | invalidContinuation
  | unexpectedEnd
deriving DecidableEq, Repr

/-- The bytes at which decoding stopped: `length` of them from `position` on, the first being
`byte`. -/
structure DecodeError where
  position : Nat
  length : Nat
  byte : UInt8
  reason : Reason
deriving DecidableEq, Repr

/-- The wording of a reason. -/
def Reason.message : Reason → String
  | .invalidStart => "invalid start byte"
  | .invalidContinuation => "invalid continuation byte"
  | .unexpectedEnd => "unexpected end of data"

/-- The wording of a decoding error, which names the byte or the range of bytes. -/
def DecodeError.message (e : DecodeError) : String :=
  let place :=
    if e.length = 1 then
      s!"byte 0x" ++ hexDigits 2 e.byte.toNat ++ s!" in position {e.position}"
    else s!"bytes in position {e.position}-{e.position + e.length - 1}"
  "'utf-8' codec can't decode " ++ place ++ ": " ++ e.reason.message

/-- What a leading byte announces: the payload it carries, the number of bytes that follow, and
the range of the first of them (narrower where a longer form or a surrogate would result). -/
structure Lead where
  payload : Nat
  following : Nat
  least : Nat
  greatest : Nat

/-- The announcement of a byte that opens a sequence of two to four bytes. -/
def lead? (b : Nat) : Option Lead :=
  if b < 0xc2 then none
  else if b < 0xe0 then some ⟨b - 0xc0, 1, 0x80, 0xbf⟩
  else if b < 0xf0 then
    some ⟨b - 0xe0, 2, if b = 0xe0 then 0xa0 else 0x80, if b = 0xed then 0x9f else 0xbf⟩
  else if b < 0xf5 then
    some ⟨b - 0xf0, 3, if b = 0xf0 then 0x90 else 0x80, if b = 0xf4 then 0x8f else 0xbf⟩
  else none

/-- Reads `n` continuation bytes, the first from the range given; a failure tells how many bytes
were read before it and why it stopped. -/
def continuation (n : Nat) (least greatest payload read : Nat) (bytes : List UInt8) :
    Except (Nat × Reason) (Nat × List UInt8) :=
  match n, bytes with
  | 0, rest => .ok (payload, rest)
  | _ + 1, [] => .error (read, .unexpectedEnd)
  | n + 1, b :: rest =>
    if least ≤ b.toNat && b.toNat ≤ greatest then
      continuation n 0x80 0xbf (payload * 64 + (b.toNat - 0x80)) (read + 1) rest
    else .error (read, .invalidContinuation)

/-- Continuation bytes are taken off the front of the input. -/
theorem continuation_length_le {n least greatest payload read : Nat} {bytes rest : List UInt8}
    {m : Nat} (h : continuation n least greatest payload read bytes = .ok (m, rest)) :
    rest.length ≤ bytes.length := by
  induction n generalizing least greatest payload read bytes with
  | zero =>
    simp only [continuation, Except.ok.injEq, Prod.mk.injEq] at h
    simp [h.2]
  | succ n ih =>
    cases bytes with
    | nil => simp [continuation] at h
    | cons b bs =>
      simp only [continuation] at h
      split at h
      · have := ih h
        simp only [List.length_cons]
        omega
      · simp at h

/-- Decodes the bytes that start at `position`. -/
def decodeFrom (position : Nat) (bytes : List UInt8) : Except DecodeError (List Char) :=
  match bytes with
  | [] => .ok []
  | b :: rest =>
    if b.toNat < 0x80 then do
      return Char.ofNat b.toNat :: (← decodeFrom (position + 1) rest)
    else match lead? b.toNat with
      | none => .error ⟨position, 1, b, .invalidStart⟩
      | some l =>
        match h : continuation l.following l.least l.greatest l.payload 1 rest with
        | .error (length, reason) => .error ⟨position, length, b, reason⟩
        | .ok (n, rest') => do
          have := continuation_length_le h
          return Char.ofNat n :: (← decodeFrom (position + l.following + 1) rest')
termination_by bytes.length

/-- The characters that a sequence of bytes encodes. -/
def decode (bytes : List UInt8) : Except DecodeError (List Char) :=
  decodeFrom 0 bytes

/-- The bytes of a list of characters. -/
def encode (cs : List Char) : List UInt8 :=
  cs.flatMap String.utf8EncodeChar

/-- The first run of surrogates in a text that was to be encoded. -/
structure EncodeError where
  position : Nat
  length : Nat
  codePoint : CodePoint
deriving DecidableEq, Repr

/-- The wording of an encoding error, which names the surrogate or the range of surrogates. -/
def EncodeError.message (e : EncodeError) : String :=
  let place :=
    if e.length = 1 then
      "character '" ++ e.codePoint.numericEscape ++ s!"' in position {e.position}"
    else s!"characters in position {e.position}-{e.position + e.length - 1}"
  "'utf-8' codec can't encode " ++ place ++ ": surrogates not allowed"

/-- The error at the first code point of a text that cannot be encoded, if there is one. The
surrogates behind it count with it. -/
def encodeError? (cannot : CodePoint → Bool) (t : Text) : Option EncodeError :=
  match t.dropWhile fun c => !cannot c with
  | [] => none
  | c :: rest =>
    some ⟨(t.takeWhile fun c => !cannot c).length,
      1 + (rest.takeWhile CodePoint.isSurrogate).length, c⟩

/-- The bytes of a text, or the first run of surrogates that stands in it. -/
def encodeText (t : Text) : Except EncodeError (List UInt8) :=
  match encodeError? CodePoint.isSurrogate t with
  | none => .ok (encode (t.map CodePoint.toChar))
  | some e => .error e

/-- Whether a code point stands for a byte past basic Latin in a name that is no text. -/
def isByteMark (c : CodePoint) : Bool :=
  0xdc80 ≤ c.val && c.val ≤ 0xdcff

/-- The bytes of a name given to the system, in which some surrogates stand for single bytes, or the
first run of surrogates of which one does not. -/
def encodeName (t : Text) : Except EncodeError (List UInt8) :=
  match encodeError? (fun c => c.isSurrogate && !isByteMark c) t with
  | none => .ok (t.flatMap fun c =>
      if isByteMark c then [UInt8.ofNat c.val] else String.utf8EncodeChar c.toChar)
  | some e => .error e

end SiteRules.Utf8
