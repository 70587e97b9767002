import V2RootCore.Buf.RawBuffer
import V2RootCore.Net.Address

/-!
# DNS messages in buffers

`handleIPQuery` of the DNS outbound and `PackMessage`. Both have the package `dnsmessage`, which is a
parameter, append to the array of a buffer.
-/

namespace V2RootCore.Dns

open Go Buf

/-- A slice that was empty on the array of a buffer, after something was appended to it. When the array is
full, `append` moves the slice to another one. -/
structure Appended where
  /-- The array of the buffer. -/
  array : Bytes
  bytes : Bytes

/-- The slice has the data, which is in the array as long as it fits there. -/
structure Appended.Has (s : Appended) (array data : Bytes) : Prop where
  bytes : s.bytes = data
  length : s.array.length = array.length
  in_place : data.length ≤ array.length → s.array = data ++ array.drop data.length

def typeA : UInt16 := 1

def typeAAAA : UInt16 := 28

/-- The header of an authoritative response with recursion desired and available. -/
structure Header where
  id : UInt16
  rcode : UInt16

/-- A question of the class INET. -/
structure Question (Name : Type) where
  name : Name
  type : UInt16

/-- A record of the class INET with an address. -/
structure Resource (Name : Type) where
  name : Name
  type : UInt16
  ttl : UInt32
  body : Bytes

/-- The `Builder` of `dnsmessage`; a method without a result has returned an error. -/
structure Builders (Name Builder : Type) where
  newName : Bytes → Option Name
  /-- `NewBuilder` for an empty slice on this array, and `EnableCompression`. -/
  newBuilder : Bytes → Header → Builder
  startQuestions : Builder → Option Builder
  question : Builder → Question Name → Option Builder
  startAnswers : Builder → Option Builder
  /-- `AResource` or `AAAAResource`, by the type. -/
  resource : Builder → Resource Name → Option Builder
  finish : Builder → Option Appended

/-- The calls for a message with one question. -/
def Builders.build {Name Builder : Type} (builders : Builders Name Builder) (array : Bytes) (header : Header)
    (question : Question Name) (answers : List (Resource Name)) : Option Builder := do
  let builder ← builders.startQuestions (builders.newBuilder array header)
  let builder ← builders.question builder question
  let builder ← builders.startAnswers builder
  answers.foldlM builders.resource builder

/-- The package `dnsmessage`. Messages are packed to the end of a slice, at once or by a `Builder`. -/
structure Package (Message Name Builder : Type) extends Builders Name Builder where
  /-- The packed form of a message. -/
  pack : Message → Except Error Bytes
  /-- `AppendPack` to an empty slice on this array. -/
  appendPack : Message → Bytes → Except Error Appended
  /-- The message with one question. -/
  response : Header → Question Name → List (Resource Name) → Message
  pack_ne : ∀ msg, pack msg ≠ .error .panicked
  appendPack_error : ∀ msg array err, pack msg = .error err → appendPack msg array = .error err
  appendPack_ok : ∀ msg array packed, pack msg = .ok packed →
    ∃ s, appendPack msg array = .ok s ∧ s.Has array packed
  build_ok : ∀ array header question answers packed, pack (response header question answers) = .ok packed →
    ∃ builder s, toBuilders.build array header question answers = some builder ∧
      finish builder = some s ∧ s.Has array packed
  /-- A record takes at least eleven bytes besides its data. -/
  le_length : ∀ header question answers packed, pack (response header question answers) = .ok packed →
    (answers.map fun answer => 11 + answer.body.length).sum ≤ packed.length

/-- `common.Must`. -/
def must {α : Type} : Option α → Except Error α
  | some a => .ok a
  | none => .error .panicked

/-- What `LookupIP` returns: its error by `RCodeFromError` and by whether it is `ErrEmptyResponse`. -/
structure LookupResult where
  ips : List Bytes := []
  ttl : UInt32 := 0
  rcode : UInt16 := 0
  isEmptyResponse : Bool := false

/-- `To16`. -/
def to16 (ip : Bytes) : Bytes :=
  if ip.length = 4 then Net.v4InV6Prefix ++ ip else if ip.length = 16 then ip else []

/-- A response to a query: its type, its time to live for both kinds of addresses, and its addresses. -/
structure IPAnswer where
  type : UInt16
  ttl4 : UInt32 := 0
  ttl6 : UInt32 := 0
  rcode : UInt16 := 0
  ips : List Bytes := []

/-- The first part of `handleIPQuery`: nothing is answered if there is nothing to say. -/
def lookupAnswer (lookupIP : Bytes → Bool → Bool → LookupResult) (type : UInt16) (domain : Bytes) :
    Option IPAnswer :=
  let lookup :=
    if type = typeA then lookupIP domain true false
    else if type = typeAAAA then lookupIP domain false true
    else {}
  if lookup.rcode = 0 ∧ lookup.ips = [] ∧ lookup.isEmptyResponse = false then none
  else
    some
      { type
        ttl4 := if type = typeA then lookup.ttl else 0
        ttl6 := if type = typeAAAA then lookup.ttl else 0
        rcode := lookup.rcode
        ips :=
          if type = typeA then lookup.ips.map fun ip => (Net.to4 ip).getD []
          else if type = typeAAAA then lookup.ips.map to16
          else lookup.ips }

section Pack

variable {Message Name Builder : Type}

/-- The record of an address. -/
def IPAnswer.resource (answer : IPAnswer) (name : Name) (ip : Bytes) : Resource Name :=
  if ip.length = 4 then { name, type := typeA, ttl := answer.ttl4, body := ip }
  else
    { name, type := typeAAAA, ttl := answer.ttl6
      body := ip.take 16 ++ List.replicate (16 - ip.length) 0 }

/-- The buffer with what `Finish` returned. After an error it is a released one. -/
def resizeTo (b : RawBuffer) : Option Appended → Except Error RawBuffer
  | none => ({ v := [] } : RawBuffer).resize 0 0
  | some msg => ({ b with v := msg.array } : RawBuffer).resize 0 (int32 msg.bytes.length)

/-- The buffer that is given to `WriteMessage`. -/
def packAnswer (builders : Builders Name Builder) (id : UInt16) (domain : Bytes) (answer : IPAnswer) :
    Except Error RawBuffer := do
  let (_, b) ← RawBuffer.new.extend size
  let builder ← must (builders.startQuestions (builders.newBuilder b.v { id, rcode := answer.rcode }))
  let name ← must (builders.newName domain)
  let builder ← must (builders.question builder { name, type := answer.type })
  let builder ← must (builders.startAnswers builder)
  let builder ← answer.ips.foldlM (fun builder ip => must (builders.resource builder (answer.resource name ip)))
    builder
  resizeTo b (builders.finish builder)

/-- `handleIPQuery`, up to `WriteMessage`. -/
def handleIPQuery (builders : Builders Name Builder) (lookupIP : Bytes → Bool → Bool → LookupResult)
    (id type : UInt16) (domain : Bytes) : Except Error (Option RawBuffer) :=
  match lookupAnswer lookupIP type domain with
  | none => .ok none
  | some answer => some <$> packAnswer builders id domain answer

/-- `PackMessage`. -/
def packMessage (package : Package Message Name Builder) (msg : Message) : Except Error RawBuffer := do
  let (_, buffer) ← RawBuffer.new.extend size
  let packed ← package.appendPack msg buffer.v
  ({ buffer with v := packed.array } : RawBuffer).resize 0 (int32 packed.bytes.length)

end Pack

end V2RootCore.Dns
