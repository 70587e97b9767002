import Mathlib.Data.UInt

/-!
# mKCP configuration values

The getters of `config.go`: an absent message falls back to the default, and the window sizes are
computed in `uint32`, wrapping where Go's arithmetic wraps. A zero MTU or an interval outside
`1..1000` divides by zero in Go; `KCPConfig.Build` refuses such configurations.
-/

namespace V2RootCore.Kcp

structure Config where
  mtu : Option UInt32 := none
  tti : Option UInt32 := none
  uplinkCapacity : Option UInt32 := none
  downlinkCapacity : Option UInt32 := none
  congestion : Bool := false
  writeBuffer : Option UInt32 := none
  readBuffer : Option UInt32 := none
  deriving DecidableEq

namespace Config

def getMTUValue (config : Config) : UInt32 := config.mtu.getD 1350

def getTTIValue (config : Config) : UInt32 := config.tti.getD 50

def getUplinkCapacityValue (config : Config) : UInt32 := config.uplinkCapacity.getD 5

def getDownlinkCapacityValue (config : Config) : UInt32 := config.downlinkCapacity.getD 20

def getWriteBufferSize (config : Config) : UInt32 := config.writeBuffer.getD (2 * 1024 * 1024)

def getReadBufferSize (config : Config) : UInt32 := config.readBuffer.getD (2 * 1024 * 1024)

/-- Both in-flight sizes are this, at the capacity of their direction. -/
def inFlightSize (config : Config) (capacity : UInt32) : UInt32 :=
  let size := capacity * 1024 * 1024 / config.getMTUValue / (1000 / config.getTTIValue)
  if size < 8 then 8 else size

def getSendingInFlightSize (config : Config) : UInt32 :=
  config.inFlightSize config.getUplinkCapacityValue

def getSendingBufferSize (config : Config) : UInt32 :=
  config.getWriteBufferSize / config.getMTUValue

def getReceivingInFlightSize (config : Config) : UInt32 :=
  config.inFlightSize config.getDownlinkCapacityValue

def getReceivingBufferSize (config : Config) : UInt32 :=
  config.getReadBufferSize / config.getMTUValue

end Config

end V2RootCore.Kcp
