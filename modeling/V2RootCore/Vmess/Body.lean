import V2RootCore.Crypto.Auth

/-!
# Bodies of VMess requests and responses

The option byte, the security type and the command of a request decide how the bodies of both
directions are cut into chunks, masked, padded and sealed.
-/

namespace V2RootCore.Vmess

open Go Buf Crypto

/-- `bitmask.Byte.Has`. -/
def has (b bb : UInt8) : Bool := b &&& bb != 0

def requestOptionChunkStream : UInt8 := 0x01

def requestOptionChunkMasking : UInt8 := 0x04

def requestOptionGlobalPadding : UInt8 := 0x08

def requestOptionAuthenticatedLength : UInt8 := 0x10

inductive SecurityType where
  | unknown
  | auto
  | aes128Gcm
  | chacha20Poly1305
  | none
  | zero
  deriving DecidableEq

def requestCommandUDP : UInt8 := 0x02

/-- `RequestCommand.TransferType`. Every command but one is for a stream, also those not known. -/
def transferType (command : UInt8) : TransferType :=
  if command = requestCommandUDP then .packet else .stream

structure RequestHeader where
  command : UInt8
  option : UInt8
  security : SecurityType

/-- The ciphers and hash functions of a session. -/
structure Primitives extends Suite where
  /-- The output of SHAKE128 for an input. -/
  shake128 : Bytes → Nat → UInt8
  md5 : Bytes → Bytes
  sha256 : Bytes → Bytes
  /-- `vmessaead.KDF16` of a key and a path of one element. -/
  kdf16 : (key path : Bytes) → Bytes
  length_sha256 : ∀ b, (sha256 b).length = 32

/-- The keys that both sessions share. -/
structure Session where
  requestBodyKey : List.Vector UInt8 16
  requestBodyIV : List.Vector UInt8 16

/-- `NoOpAuthenticator`. -/
def noOpAuthenticator : Cipher where
  key := []
  nonceSize := 0
  overhead := 0
  sealBytes _ plaintext _ := plaintext
  openBytes _ ciphertext _ := some ciphertext
  length_sealBytes _ _ _ := rfl
  openBytes_sealBytes _ _ _ := rfl

/-- The objects that the size parser and the padding generator of a body may share. -/
structure ParserState where
  shake : ByteStream
  lengthAuth : AEADAuthenticator

/-- `ShakeSizeParser.next`. -/
def next (st : ParserState) : UInt16 × ParserState :=
  let (buffer, shake) := st.shake.read 2
  (uint16 buffer, { st with shake })

/-- `ShakeSizeParser` as a size parser. -/
def shakeSizeParser : ChunkSizeParser ParserState where
  sizeBytes := 2
  encode st size :=
    let (mask, st) := next st
    (.ok (putUint16 (mask ^^^ size)), st)
  decode st b :=
    let (mask, st) := next st
    (.ok (mask ^^^ uint16 b), st)

/-- `ShakeSizeParser` as a padding generator. -/
def shakePadding : PaddingLengthGenerator ParserState where
  maxPaddingLen := 64
  nextPaddingLen st :=
    let (value, st) := next st
    (value % 64, st)

/-- `NewAEADSizeParser`. -/
def aeadSizeParser (overhead : Nat) : ChunkSizeParser ParserState :=
  aeadChunkSizeParser overhead ParserState.lengthAuth fun st lengthAuth => { st with lengthAuth }

/-- `GenerateChunkNonce`. The counter has 16 bits. -/
def generateChunkNonce (nonce : Bytes) (size : Nat) : BytesGenerator where
  bytes count := (putUint16 (UInt16.ofNat count) ++ nonce.drop 2).take size

/-- What the four functions on bodies choose between. -/
inductive Body where
  | plain
  | chunkStream (sizeParser : ChunkSizeParser ParserState) (state : ParserState)
  | authentication (auth : AEADAuthenticator) (sizeParser : ChunkSizeParser ParserState)
      (padding : Option (PaddingLengthGenerator ParserState)) (state : ParserState)
      (transferType : TransferType)

section Choice

variable (prim : Primitives)

def generateChacha20Poly1305Key (b : Bytes) : Bytes :=
  let t := prim.md5 b
  t ++ prim.md5 t

namespace Session

/-- The first half of the hash, as both sessions copy it. -/
def responseBodyKey (s : Session) : Bytes := (prim.sha256 s.requestBodyKey.toList).take 16

def responseBodyIV (s : Session) : Bytes := (prim.sha256 s.requestBodyIV.toList).take 16

/-- `AuthenticatedLengthKey`, which does not depend on the direction. -/
def authenticatedLengthKey (s : Session) : Bytes :=
  prim.kdf16 s.requestBodyKey.toList (ascii "auth_len")

end Session

/-- An `AEADAuthenticator` as the bodies make it. -/
def newAuthenticator (aead : Cipher) (iv : Bytes) (nonceSize : Nat) : AEADAuthenticator where
  aead
  nonceGenerator := generateChunkNonce iv nonceSize
  additionalDataGenerator := some generateEmptyBytes

/-- The case of one of the two ciphers, given as a function of the key. -/
def sealedBody (newCipher : Bytes → Cipher) (key iv lengthKey lengthIV : Bytes) (request : RequestHeader)
    (sizeParser : ChunkSizeParser ParserState) (padding : Option (PaddingLengthGenerator ParserState))
    (shake : ByteStream) : Body :=
  let aead := newCipher key
  let lengthAuth := newAuthenticator (newCipher lengthKey) lengthIV aead.nonceSize
  .authentication (newAuthenticator aead iv aead.nonceSize)
    (if has request.option requestOptionAuthenticatedLength then
      aeadSizeParser lengthAuth.aead.overhead
    else sizeParser)
    padding { shake, lengthAuth } (transferType request.command)

/-- The choice by the header of the request, for the key and IV of a direction and those of the
authenticated length. -/
def newBody (key iv lengthKey lengthIV : Bytes) (request : RequestHeader) : Except Error Body :=
  let masking := has request.option requestOptionChunkMasking
  let sizeParser := if masking then shakeSizeParser else plainChunkSizeParser
  let shake : ByteStream := { byte := prim.shake128 iv }
  let globalPadding := has request.option requestOptionGlobalPadding
  let padding := if globalPadding then some shakePadding else none
  if globalPadding ∧ ¬masking then
    .error (.new (ascii "invalid option: RequestOptionGlobalPadding"))
  else
    match request.security with
    | .none =>
        if has request.option requestOptionChunkStream then
          let auth : AEADAuthenticator :=
            { aead := noOpAuthenticator
              nonceGenerator := generateEmptyBytes
              additionalDataGenerator := some generateEmptyBytes }
          let state : ParserState := { shake, lengthAuth := auth }
          match transferType request.command with
          | .stream => .ok (.chunkStream sizeParser state)
          | .packet => .ok (.authentication auth sizeParser padding state .packet)
        else .ok .plain
    | .aes128Gcm =>
        .ok (sealedBody prim.gcm key iv lengthKey lengthIV request sizeParser padding shake)
    | .chacha20Poly1305 =>
        .ok (sealedBody (fun key => prim.chacha20Poly1305 (generateChacha20Poly1305Key prim key))
          key iv lengthKey lengthIV request sizeParser padding shake)
    | _ => .error (.new (ascii "invalid option: Security"))

end Choice

/-- The `buf.Writer` of a body. The plain one writes what it is given. -/
inductive BodyWriter where
  | plain
  | chunkStream (w : ChunkStreamWriter ParserState)
  | authentication (w : AuthenticationWriter ParserState)

/-- The `buf.Reader` of a body. The plain one returns what it is given. -/
inductive BodyReader (ρ : Type) where
  | plain (reader : List (MultiBuffer ρ))
  | chunkStream (r : ChunkStreamReader ParserState ρ)
  | authentication (r : AuthenticationReader ParserState ρ)

variable {ρ : Type}

def Body.writer (random : ByteStream) : Body → BodyWriter
  | plain => .plain
  | chunkStream sizeEncoder state => .chunkStream { sizeEncoder, state }
  | authentication auth sizeParser padding state transferType =>
      .authentication { auth, sizeParser, padding, state, transferType, random }

def Body.reader (reader : List (MultiBuffer ρ)) : Body → BodyReader ρ
  | plain => .plain reader
  | chunkStream sizeDecoder state => .chunkStream { sizeDecoder, state, reader := { reader } }
  | authentication auth sizeParser padding state _ =>
      .authentication { auth, sizeParser, padding, state, reader := { reader } }

section Members

variable (prim : Primitives) (s : Session) (request : RequestHeader)

def requestBody : Except Error Body :=
  newBody prim s.requestBodyKey.toList s.requestBodyIV.toList (s.authenticatedLengthKey prim)
    s.requestBodyIV.toList request

def responseBody : Except Error Body :=
  newBody prim (s.responseBodyKey prim) (s.responseBodyIV prim) (s.authenticatedLengthKey prim)
    s.requestBodyIV.toList request

/-- `ClientSession.EncodeRequestBody`. -/
def encodeRequestBody (random : ByteStream) : Except Error BodyWriter :=
  (requestBody prim s request).map (Body.writer random)

/-- `ServerSession.DecodeRequestBody`. -/
def decodeRequestBody (reader : List (MultiBuffer ρ)) : Except Error (BodyReader ρ) :=
  (requestBody prim s request).map (Body.reader reader)

/-- `ServerSession.EncodeResponseBody`. -/
def encodeResponseBody (random : ByteStream) : Except Error BodyWriter :=
  (responseBody prim s request).map (Body.writer random)

/-- `ClientSession.DecodeResponseBody`. -/
def decodeResponseBody (reader : List (MultiBuffer ρ)) : Except Error (BodyReader ρ) :=
  (responseBody prim s request).map (Body.reader reader)

end Members

namespace BodyWriter

def writeMultiBuffer : BodyWriter → MultiBuffer ρ → Except Error Bytes × BodyWriter
  | plain, mb => (.ok mb.bytes, plain)
  | chunkStream w, mb =>
      let (written, w) := w.writeMultiBuffer mb
      (written, chunkStream w)
  | authentication w, mb =>
      let (written, w) := w.writeMultiBuffer mb
      (written, authentication w)

/-- Writes one after the other, up to the first error. -/
def writeAll (w : BodyWriter) : List (MultiBuffer ρ) → Except Error Bytes × BodyWriter
  | [] => (.ok [], w)
  | mb :: rest =>
      match w.writeMultiBuffer mb with
      | (.error err, w) => (.error err, w)
      | (.ok written, w) =>
          match w.writeAll rest with
          | (.error err, w) => (.error err, w)
          | (.ok more, w) => (.ok (written ++ more), w)

/-- The number of chunks that were sealed. -/
def chunks : BodyWriter → Nat
  | authentication w => w.auth.nonceGenerator.calls
  | _ => 0

/-- The pairs of key and nonce that the ciphers of a writer have sealed with, for payloads and for
lengths. -/
def seals : BodyWriter → List (Bytes × Bytes)
  | authentication w => w.auth.uses ++ w.state.lengthAuth.uses
  | _ => []

end BodyWriter

namespace BodyReader

def readMultiBuffer : BodyReader ρ → Except Error (MultiBuffer ρ) × BodyReader ρ
  | plain [] => (.error .eof, plain [])
  | plain (mb :: reader) => (.ok mb, plain reader)
  | chunkStream r =>
      let (mb, r) := r.readMultiBuffer
      (mb, chunkStream r)
  | authentication r =>
      let (mb, r) := r.readMultiBuffer
      (mb, authentication r)

end BodyReader

end V2RootCore.Vmess
