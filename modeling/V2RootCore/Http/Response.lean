import V2RootCore.Go.Bufio
import V2RootCore.Go.Slices
import V2RootCore.Loop
import V2RootCore.Buf.MultiBuffer

/-!
# Responses with a 1xx status

The HTTP proxy forwards a 1xx response to its client before it reads the response itself. What
`http.ReadResponse` makes of the rest is left out.
-/

namespace V2RootCore.Http

open Go

def errReading (err : Error) : Error := .base (ascii "failed to read http 1xx response") err

def errTooBig : Error := .new (ascii "too big http 1xx response")

/-- The status in the first line of a response. -/
def statusOf (peekBytes : Bytes) : Bytes :=
  let responseLine :=
    match index peekBytes (ascii "\r\n") with
    | some i => peekBytes.take i
    | none => peekBytes
  (cut 32 responseLine).2

/-- One line of the header of a 1xx response, up to its end or further. -/
def headerLine (s : Bytes × Bufio) : Except Error (Bytes × Bufio ⊕ Bytes × Bufio) :=
  match s.2.readSlice 10 with
  | (.error err, _) => .error (errReading err)
  | (.ok data, r) => do
      let responseHeader1xx := s.1 ++ data
      let tail ← sliceFrom responseHeader1xx (responseHeader1xx.length - 4)
      if tail = ascii "\r\n\r\n" then .ok (.inl (responseHeader1xx, r))
      else if 1024 < responseHeader1xx.length then .error errTooBig
      else .ok (.inr (responseHeader1xx, r))

/-- What is forwarded, and the reader that is left to `http.ReadResponse`. -/
def readResponseAndHandle100Continue (r : Bufio) : Except Error (Bytes × Bufio) :=
  match r.peek 56 with
  | ((peekBytes, err), r) =>
      if (err = none ∨ err = some errBufferFull) ∧ hasPrefix (statusOf peekBytes) (ascii "1") then
        loop .panicked headerLine 1026 ([], r)
      else .ok ([], r)

end V2RootCore.Http
