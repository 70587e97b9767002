import V2RootCore.Go.Slices
import V2RootCore.Loop

/-!
# The server name of a client hello
-/

namespace V2RootCore.Tls

open Go

def errNoClue : Error := .new (ascii "not enough information for making a decision")

def errProtoNeedMoreData : Error :=
  .new (ascii "protocol matches, but need more data to complete sniffing")

def errNotTLS : Error := .new (ascii "not TLS header")

def errNotClientHello : Error := .new (ascii "not client hello")

/-- Two bytes from an index on, as a number. -/
def twoBytesAt (data : Bytes) (i : Int) : Except Error Nat := do
  let high ← byteAt data i
  let low ← byteAt data (i + 1)
  .ok (256 * high.toNat + low.toNat)

/-- One entry of the list of server names: its end without a name of a host, the name, or the rest. -/
def serverNameEntry (d : Bytes) : Except Error (Option Bytes ⊕ Bytes) :=
  if d = [] then .ok (.inl none)
  else if d.length < 3 then .error errNotClientHello
  else do
    let nameType ← byteAt d 0
    let nameLen ← twoBytesAt d 1
    let d ← sliceFrom d 3
    if d.length < nameLen then .error errNotClientHello
    else do
      let name ← slice d 0 nameLen
      if nameType = 0 then
        if name.any (· ≤ 32) then .error errProtoNeedMoreData
        else if name.getLast? = some 46 then .error errNotClientHello
        else .ok (.inl (some name))
      else do
        let d ← sliceFrom d nameLen
        .ok (.inr d)

/-- The extension with the server names. -/
def serverName (d : Bytes) : Except Error (Option Bytes) :=
  if d.length < 2 then .error errNotClientHello
  else do
    let namesLen ← twoBytesAt d 0
    let d ← sliceFrom d 2
    if d.length ≠ namesLen then .error errNotClientHello
    else loop .panicked serverNameEntry (d.length + 1) d

/-- The server name in an extension of this type, if it has one. -/
def extensionName (extension : Nat) (data : Bytes) (length : Nat) : Except Error (Option Bytes) :=
  if extension = 0 then do
    let d ← slice data 0 length
    serverName d
  else .ok none

/-- One extension: a server name or the rest. -/
def extension (data : Bytes) : Except Error (Bytes ⊕ Bytes) :=
  if data = [] then .error errNotTLS
  else if data.length < 4 then .error errNotClientHello
  else do
    let extension ← twoBytesAt data 0
    let length ← twoBytesAt data 2
    let data ← sliceFrom data 4
    if data.length < length then .error errNotClientHello
    else do
      let name ← extensionName extension data length
      match name with
      | some name => .ok (.inl name)
      | none => do
          let data ← sliceFrom data length
          .ok (.inr data)

def readClientHello (data : Bytes) : Except Error Bytes :=
  if data.length < 42 then .error errNoClue
  else do
    let sessionIDLen ← byteAt data 38
    if 32 < sessionIDLen.toNat ∨ data.length < 39 + sessionIDLen.toNat then .error errNoClue
    else do
      let data ← sliceFrom data (39 + sessionIDLen.toNat)
      if data.length < 2 then .error errNoClue
      else do
        let cipherSuiteLen ← twoBytesAt data 0
        if cipherSuiteLen % 2 = 1 ∨ data.length < 2 + cipherSuiteLen then .error errNotClientHello
        else do
          let data ← sliceFrom data (2 + cipherSuiteLen)
          if data.length < 1 then .error errNoClue
          else do
            let compressionMethodsLen ← byteAt data 0
            if data.length < 1 + compressionMethodsLen.toNat then .error errNoClue
            else do
              let data ← sliceFrom data (1 + compressionMethodsLen.toNat)
              if data.length < 2 then .error errNotClientHello
              else do
                let extensionsLength ← twoBytesAt data 0
                let data ← sliceFrom data 2
                if extensionsLength ≠ data.length then .error errNotClientHello
                else loop .panicked extension (data.length + 1) data

def isValidTLSVersion (major : UInt8) : Bool := major = 3

def sniffTLS (b : Bytes) : Except Error Bytes :=
  if b.length < 5 then .error errNoClue
  else do
    let type ← byteAt b 0
    if type ≠ 0x16 then .error errNotTLS
    else do
      let major ← byteAt b 1
      if ¬isValidTLSVersion major then .error errNotTLS
      else do
        let headerLen ← twoBytesAt b 3
        if b.length < 5 + headerLen then .error errNoClue
        else do
          let data ← slice b 5 (5 + headerLen)
          readClientHello data

end V2RootCore.Tls
