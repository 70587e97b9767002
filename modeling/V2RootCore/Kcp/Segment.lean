import Mathlib.Data.List.Basic

/-!
# mKCP segments

The three segment kinds of `segment.go`, as the two ends of a conversation hold them in memory.
Payloads are of an arbitrary type `β`: the workers move payloads around and never look inside them.
-/

namespace V2RootCore.Kcp

abbrev Command := UInt8

def CommandACK : Command := 0
def CommandData : Command := 1
def CommandTerminate : Command := 2
def CommandPing : Command := 3

abbrev SegmentOption := UInt8

def SegmentOptionClose : SegmentOption := 1

structure DataSegment (β : Type) where
  conv : UInt16 := 0
  option : SegmentOption := 0
  timestamp : UInt32 := 0
  number : UInt32
  sendingNext : UInt32 := 0
  payload : β
  timeout : UInt32 := 0
  transmit : UInt32 := 0
  deriving DecidableEq

structure AckSegment where
  conv : UInt16 := 0
  option : SegmentOption := 0
  receivingWindow : UInt32 := 0
  receivingNext : UInt32 := 0
  timestamp : UInt32 := 0
  numberList : List UInt32 := []
  deriving DecidableEq

def ackNumberLimit : Nat := 128

namespace AckSegment

def putTimestamp (seg : AckSegment) (timestamp : UInt32) : AckSegment :=
  if timestamp - seg.timestamp < 0x7FFFFFFF then { seg with timestamp } else seg

def putNumber (seg : AckSegment) (number : UInt32) : AckSegment :=
  { seg with numberList := seg.numberList ++ [number] }

def isFull (seg : AckSegment) : Bool := seg.numberList.length == ackNumberLimit

def isEmpty (seg : AckSegment) : Bool := seg.numberList.length == 0

@[simp]
theorem putTimestamp_numberList (seg : AckSegment) (timestamp : UInt32) :
    (seg.putTimestamp timestamp).numberList = seg.numberList := by
  unfold putTimestamp
  split <;> rfl

@[simp]
theorem putNumber_numberList (seg : AckSegment) (number : UInt32) :
    (seg.putNumber number).numberList = seg.numberList ++ [number] := rfl

end AckSegment

structure CmdOnlySegment where
  conv : UInt16 := 0
  cmd : Command
  option : SegmentOption := 0
  sendingNext : UInt32
  receivingNext : UInt32
  peerRTO : UInt32
  deriving DecidableEq

inductive Segment (β : Type) where
  | data (seg : DataSegment β)
  | ack (seg : AckSegment)
  | cmdOnly (seg : CmdOnlySegment)
  deriving DecidableEq

def Segment.conversation {β : Type} : Segment β → UInt16
  | .data seg => seg.conv
  | .ack seg => seg.conv
  | .cmdOnly seg => seg.conv

def Segment.option {β : Type} : Segment β → SegmentOption
  | .data seg => seg.option
  | .ack seg => seg.option
  | .cmdOnly seg => seg.option

end V2RootCore.Kcp
