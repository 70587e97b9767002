import V2RootCore.Vless.CommonConn

/-!
# Masked record headers

`XorConn` masks the headers of records with a key stream and lets their data through. It goes by the
lengths in the headers: after a header it skips as many bytes as that says, whether or not the header
is a good one.
-/

namespace V2RootCore.Vless

open Go

/-- `cipher.Stream` in counter mode: the key stream, and how much of it was used. -/
structure Stream where
  key : Nat → UInt8
  used : Nat := 0

/-- `XORKeyStream`. -/
def Stream.xorKeyStream (s : Stream) (b : Bytes) : Bytes × Stream :=
  (b.zipIdx.map fun (byte, i) => byte ^^^ s.key (s.used + i), { s with used := s.used + b.length })

theorem Stream.length_xorKeyStream (s : Stream) (b : Bytes) :
    (s.xorKeyStream b).1.length = b.length := by
  simp [xorKeyStream]

/-- One direction of an `XorConn`: `CTR`, `OutSkip` and `OutHeader`, or those of the peer. -/
@[ext]
structure Half where
  ctr : Stream
  skip : Nat
  header : Bytes := []
  header_length : header.length < 5 := by decide

namespace Half

/-- The loops of `Write` and `Read`, which end as each turn takes at least one byte. They differ in what
is parsed as a header: `Write` takes the bytes before they are masked, `Read` those after it. -/
def loop (reading : Bool) : Nat → Half → Bytes → Half × Bytes
  | 0, c, p => (c, p)
  | fuel + 1, c, p =>
      if p.length ≤ c.skip then ({ c with skip := c.skip - p.length }, p)
      else
        let skipped := p.take c.skip
        let p := p.drop c.skip
        let need := 5 - c.header.length
        if hneed : p.length < need then
          let masked := c.ctr.xorKeyStream p
          ({ ctr := masked.2
             skip := 0
             header := c.header ++ if reading then masked.1 else p
             header_length := by
               have hlength : masked.1.length = p.length := c.ctr.length_xorKeyStream p
               split_ifs <;> simp only [List.length_append] <;> omega },
            skipped ++ masked.1)
        else
          let (masked, ctr) := c.ctr.xorKeyStream (p.take need)
          let header := c.header ++ if reading then masked else p.take need
          let (c, rest) := loop reading fuel { ctr, skip := (decodeHeader header).1 } (p.drop need)
          (c, skipped ++ masked ++ rest)

end Half

structure XorConn where
  out : Half
  peer : Half

def newXorConn (ctr peerCTR : Stream) (outSkip inSkip : Nat) : XorConn where
  out := { ctr, skip := outSkip }
  peer := { ctr := peerCTR, skip := inSkip }

namespace XorConn

/-- `Write`: the connection after it and what is written to the one below. -/
def write (c : XorConn) (b : Bytes) : XorConn × Bytes :=
  if b = [] then (c, [])
  else
    let (out, b) := c.out.loop false (b.length + 1) b
    ({ c with out }, b)

/-- `Read`, when the connection below has returned these bytes. -/
def read (c : XorConn) (b : Bytes) : XorConn × Bytes :=
  let (peer, b) := c.peer.loop true (b.length + 1) b
  ({ c with peer }, b)

/-- Calls of `Write` one after the other. -/
def writeAll : XorConn → List Bytes → XorConn × Bytes
  | c, [] => (c, [])
  | c, b :: chunks =>
      let (c, output) := c.write b
      let (c, rest) := writeAll c chunks
      (c, output ++ rest)

/-- Calls of `Read` one after the other, and all that they return. -/
def readAll : XorConn → List Bytes → XorConn × Bytes
  | c, [] => (c, [])
  | c, b :: pieces =>
      let (c, output) := c.read b
      let (c, rest) := readAll c pieces
      (c, output ++ rest)

end XorConn

end V2RootCore.Vless
