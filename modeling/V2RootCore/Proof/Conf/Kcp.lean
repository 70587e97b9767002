import V2RootCore.Conf.Kcp
import Mathlib.Tactic.Common

/-!
# The window sizes of an mKCP configuration

The getters compute in `uint32`, first the bytes of a buffer or of a capacity and then the quotients.
The quotients are exact; the product with `2 ^ 20` wraps from 4096 MiB on, and then what is lost is
at least `2 ^ 32`, more than any packet size and number of ticks makes up for.
-/

namespace V2RootCore.Conf

namespace KCPConfig

variable {c : KCPConfig} {settings : KcpSettings}

/-- What `build` copies, and the ranges its checks leave for the MTU and the tick interval. -/
structure Built (c : KCPConfig) (settings : KcpSettings) : Prop where
  uplinkCapacity : settings.uplinkCapacity = c.upCap
  downlinkCapacity : settings.downlinkCapacity = c.downCap
  writeBuffer : settings.writeBuffer = c.writeBufferSize.map bufferBytes
  readBuffer : settings.readBuffer = c.readBufferSize.map bufferBytes
  mtu : settings.mtu = c.mtu
  tti : settings.tti = c.tti
  mtu_range : 576 ≤ settings.getMTUValue.toNat ∧ settings.getMTUValue.toNat ≤ 1460
  tti_range : 10 ≤ settings.getTTIValue.toNat ∧ settings.getTTIValue.toNat ≤ 100

theorem range_of_checkRange {value : Option UInt32} {low high default : UInt32} {message : String}
    (hcheck : checkRange value low high message = .ok ())
    (hdefault : low ≤ default ∧ default ≤ high) :
    low.toNat ≤ (value.getD default).toNat ∧ (value.getD default).toNat ≤ high.toNat := by
  cases value with
  | none => exact hdefault
  | some value =>
      by_cases hout : value < low ∨ value > high
      · simp [checkRange, hout] at hcheck
      · rw [not_or, gt_iff_lt, UInt32.not_lt, UInt32.not_lt] at hout
        exact hout

theorem built_of_build (hbuild : c.build = .ok settings) : Built c settings := by
  unfold build at hbuild
  cases hmtu : c.checkMtu with
  | error message => simp [hmtu] at hbuild; cases hbuild
  | ok checked =>
      cases htti : c.checkTti with
      | error message => rw [hmtu, htti] at hbuild; cases hbuild
      | ok checked' =>
          cases hheader : c.buildHeader with
          | error message => rw [hmtu, htti, hheader] at hbuild; cases hbuild
          | ok header =>
              rw [hmtu, htti, hheader] at hbuild
              cases hbuild
              exact ⟨rfl, rfl, rfl, rfl, rfl, rfl, range_of_checkRange hmtu (by decide),
                range_of_checkRange htti (by decide)⟩

end KCPConfig

section Sizes

/-- A capacity or buffer size in MiB, as bytes in unbounded integers. -/
def mebibytes (size : Nat) : Nat := size * 2 ^ 20

/-- The exact bytes of a buffer setting: 512 KiB for zero, 2 MiB when it is not set. -/
def exactBufferBytes : Option UInt32 → Nat
  | none => mebibytes 2
  | some size => if size.toNat = 0 then 512 * 2 ^ 10 else mebibytes size.toNat

theorem exactBufferBytes_some (size : UInt32) :
    exactBufferBytes (some size) =
      if size.toNat = 0 then 512 * 2 ^ 10 else mebibytes size.toNat := rfl

def exactInFlightSize (capacity mtu tti : Nat) : Nat :=
  max 8 (mebibytes capacity / mtu / (1000 / tti))

theorem toNat_mebibytes (size : UInt32) :
    (size * 1024 * 1024).toNat = mebibytes size.toNat % 2 ^ 32 := by
  simp only [UInt32.toNat_mul, UInt32.reduceToNat, mebibytes]
  omega

theorem mebibytes_lt_iff (size : Nat) : mebibytes size < 2 ^ 32 ↔ size < 4096 := by
  unfold mebibytes
  omega

/-- What a product loses when it wraps is more than eight packets in a tick. -/
theorem quotient_wrapped_add_lt {bytes divisor : Nat} (hwraps : 2 ^ 32 ≤ bytes) (hpos : 0 < divisor)
    (hsmall : divisor ≤ 146000) : bytes % 2 ^ 32 / divisor + 8 < bytes / divisor := by
  have hlost : bytes % 2 ^ 32 + 2 ^ 32 ≤ bytes := by omega
  calc bytes % 2 ^ 32 / divisor + 8
      < bytes % 2 ^ 32 / divisor + 2 ^ 32 / 146000 := by omega
    _ ≤ bytes % 2 ^ 32 / divisor + 2 ^ 32 / divisor :=
        Nat.add_le_add_left (Nat.div_le_div_left hsmall hpos) _
    _ ≤ (bytes % 2 ^ 32 + 2 ^ 32) / divisor := Nat.div_add_div_le_add_div
    _ ≤ bytes / divisor := Nat.div_le_div_right hlost

variable {config : Kcp.Config}
  (hmtu : 576 ≤ config.getMTUValue.toNat ∧ config.getMTUValue.toNat ≤ 1460)
  (htti : 10 ≤ config.getTTIValue.toNat ∧ config.getTTIValue.toNat ≤ 100)

theorem toNat_inFlightSize (capacity : UInt32) :
    (config.inFlightSize capacity).toNat =
      max 8 (mebibytes capacity.toNat % 2 ^ 32 / config.getMTUValue.toNat /
        (1000 / config.getTTIValue.toNat)) := by
  unfold Kcp.Config.inFlightSize
  have hsize : (capacity * 1024 * 1024 / config.getMTUValue / (1000 / config.getTTIValue)).toNat =
      mebibytes capacity.toNat % 2 ^ 32 / config.getMTUValue.toNat /
        (1000 / config.getTTIValue.toNat) := by
    rw [UInt32.toNat_div, UInt32.toNat_div, UInt32.toNat_div, toNat_mebibytes]
    rfl
  rw [← hsize]
  dsimp only
  split
  · next hless =>
      rw [UInt32.lt_iff_toNat_lt] at hless
      simp only [UInt32.reduceToNat] at hless ⊢
      omega
  · next hless =>
      rw [UInt32.lt_iff_toNat_lt] at hless
      simp only [UInt32.reduceToNat] at hless
      omega

include hmtu htti in
theorem inFlightSize_exact_iff (capacity : UInt32) :
    (config.inFlightSize capacity).toNat =
        exactInFlightSize capacity.toNat config.getMTUValue.toNat config.getTTIValue.toNat ↔
      capacity.toNat < 4096 := by
  rw [toNat_inFlightSize, exactInFlightSize, ← mebibytes_lt_iff]
  constructor
  · intro hexact
    by_contra hwraps
    have hticks : 0 < 1000 / config.getTTIValue.toNat := Nat.div_pos (by omega) (by omega)
    have hticks' : 1000 / config.getTTIValue.toNat ≤ 1000 / 10 := Nat.div_le_div_left htti.1 (by omega)
    have hdivisor : config.getMTUValue.toNat * (1000 / config.getTTIValue.toNat) ≤ 1460 * 100 :=
      Nat.mul_le_mul hmtu.2 hticks'
    have hlost := quotient_wrapped_add_lt (not_lt.mp hwraps)
      (Nat.mul_pos (by omega : 0 < config.getMTUValue.toNat) hticks) hdivisor
    rw [Nat.div_div_eq_div_mul, Nat.div_div_eq_div_mul] at hexact
    have hexceeds := hexact ▸ le_max_right 8 (mebibytes capacity.toNat /
      (config.getMTUValue.toNat * (1000 / config.getTTIValue.toNat)))
    refine absurd hexceeds (not_le.mpr (max_lt ?_ ?_))
    · exact lt_of_le_of_lt (Nat.le_add_left 8 _) hlost
    · exact lt_of_le_of_lt (Nat.le_add_right _ 8) hlost
  · intro hfits
    rw [Nat.mod_eq_of_lt hfits]

theorem toNat_bufferBytes (size : UInt32) :
    (KCPConfig.bufferBytes size).toNat = exactBufferBytes (some size) % 2 ^ 32 := by
  rw [exactBufferBytes_some]
  unfold KCPConfig.bufferBytes
  by_cases hzero : size.toNat = 0
  · have hnot : ¬ size > 0 := by
      rw [gt_iff_lt, UInt32.lt_iff_toNat_lt]
      simp [hzero]
    rw [if_neg hnot, if_pos hzero]
    decide
  · have hpositive : size > 0 := by
      rw [gt_iff_lt, UInt32.lt_iff_toNat_lt]
      exact Nat.pos_of_ne_zero hzero
    rw [if_pos hpositive, if_neg hzero, toNat_mebibytes]

theorem exactBufferBytes_lt_iff (size : Option UInt32) :
    exactBufferBytes size < 2 ^ 32 ↔ (size.getD 2).toNat < 4096 := by
  cases size with
  | none => decide
  | some size =>
      rw [Option.getD_some, exactBufferBytes_some]
      split
      · next hzero => simp [hzero]
      · exact mebibytes_lt_iff _

theorem toNat_getD_map_bufferBytes (size : Option UInt32) :
    ((size.map KCPConfig.bufferBytes).getD (2 * 1024 * 1024)).toNat = exactBufferBytes size % 2 ^ 32 := by
  cases size with
  | none => decide
  | some size => exact toNat_bufferBytes size

theorem bufferSize_exact_iff (size : Option UInt32) {mtu : UInt32}
    (hrange : 576 ≤ mtu.toNat ∧ mtu.toNat ≤ 1460) :
    (((size.map KCPConfig.bufferBytes).getD (2 * 1024 * 1024)) / mtu).toNat =
        exactBufferBytes size / mtu.toNat ↔
      (size.getD 2).toNat < 4096 := by
  rw [UInt32.toNat_div, toNat_getD_map_bufferBytes, ← exactBufferBytes_lt_iff]
  constructor
  · intro hexact
    by_contra hwraps
    have hlost := quotient_wrapped_add_lt (not_lt.mp hwraps)
      (by omega : 0 < mtu.toNat) (by omega)
    omega
  · intro hfits
    rw [Nat.mod_eq_of_lt hfits]

end Sizes

/-- The four window sizes are what the configuration says, in unbounded integers. -/
structure ExactSizes (c : KCPConfig) (settings : KcpSettings) : Prop where
  sendingInFlight : settings.getSendingInFlightSize.toNat =
    exactInFlightSize (c.upCap.getD 5).toNat (c.mtu.getD 1350).toNat (c.tti.getD 50).toNat
  receivingInFlight : settings.getReceivingInFlightSize.toNat =
    exactInFlightSize (c.downCap.getD 20).toNat (c.mtu.getD 1350).toNat (c.tti.getD 50).toNat
  sendingBuffer : settings.getSendingBufferSize.toNat =
    exactBufferBytes c.writeBufferSize / (c.mtu.getD 1350).toNat
  receivingBuffer : settings.getReceivingBufferSize.toNat =
    exactBufferBytes c.readBufferSize / (c.mtu.getD 1350).toNat

/-- **An accepted configuration has the window sizes it states exactly when every capacity and every
buffer size is below 4096 MiB.** -/
theorem exactSizes_iff {c : KCPConfig} {settings : KcpSettings} (hbuild : c.build = .ok settings) :
    ExactSizes c settings ↔
      (c.upCap.getD 5).toNat < 4096 ∧ (c.downCap.getD 20).toNat < 4096 ∧
      (c.writeBufferSize.getD 2).toNat < 4096 ∧ (c.readBufferSize.getD 2).toNat < 4096 := by
  have hbuilt := KCPConfig.built_of_build hbuild
  have hmtu : settings.getMTUValue = c.mtu.getD 1350 := congrArg (Option.getD · 1350) hbuilt.mtu
  have htti : settings.getTTIValue = c.tti.getD 50 := congrArg (Option.getD · 50) hbuilt.tti
  have hup : settings.getUplinkCapacityValue = c.upCap.getD 5 :=
    congrArg (Option.getD · 5) hbuilt.uplinkCapacity
  have hdown : settings.getDownlinkCapacityValue = c.downCap.getD 20 :=
    congrArg (Option.getD · 20) hbuilt.downlinkCapacity
  have hsending : settings.getSendingInFlightSize.toNat = exactInFlightSize (c.upCap.getD 5).toNat
      (c.mtu.getD 1350).toNat (c.tti.getD 50).toNat ↔ (c.upCap.getD 5).toNat < 4096 := by
    rw [← hup, ← hmtu, ← htti]
    exact inFlightSize_exact_iff hbuilt.mtu_range hbuilt.tti_range _
  have hreceiving : settings.getReceivingInFlightSize.toNat = exactInFlightSize
      (c.downCap.getD 20).toNat (c.mtu.getD 1350).toNat (c.tti.getD 50).toNat ↔
      (c.downCap.getD 20).toNat < 4096 := by
    rw [← hdown, ← hmtu, ← htti]
    exact inFlightSize_exact_iff hbuilt.mtu_range hbuilt.tti_range _
  have hwrite : settings.getSendingBufferSize.toNat = exactBufferBytes c.writeBufferSize /
      (c.mtu.getD 1350).toNat ↔ (c.writeBufferSize.getD 2).toNat < 4096 := by
    rw [← hmtu, Kcp.Config.getSendingBufferSize, Kcp.Config.getWriteBufferSize, hbuilt.writeBuffer]
    exact bufferSize_exact_iff _ hbuilt.mtu_range
  have hread : settings.getReceivingBufferSize.toNat = exactBufferBytes c.readBufferSize /
      (c.mtu.getD 1350).toNat ↔ (c.readBufferSize.getD 2).toNat < 4096 := by
    rw [← hmtu, Kcp.Config.getReceivingBufferSize, Kcp.Config.getReadBufferSize, hbuilt.readBuffer]
    exact bufferSize_exact_iff _ hbuilt.mtu_range
  rw [← hsending, ← hreceiving, ← hwrite, ← hread]
  constructor
  · intro hexact
    exact ⟨hexact.sendingInFlight, hexact.receivingInFlight, hexact.sendingBuffer,
      hexact.receivingBuffer⟩
  · rintro ⟨hup', hdown', hwrite', hread'⟩
    exact ⟨hup', hdown', hwrite', hread'⟩

/-- The largest capacity that is taken as it is. -/
theorem exactSizes_capacity :
    ({ mtu := some 1400, upCap := some 4095, readBufferSize := some 16 } : KCPConfig).build =
        .ok { mtu := some 1400, uplinkCapacity := some 4095, readBuffer := some 16777216 } ∧
      ExactSizes { mtu := some 1400, upCap := some 4095, readBufferSize := some 16 }
        { mtu := some 1400, uplinkCapacity := some 4095, readBuffer := some 16777216 } :=
  ⟨rfl, (exactSizes_iff rfl).mpr ⟨by decide, by decide, by decide, by decide⟩⟩

/-- An uplink capacity of 4096 is accepted and gives the smallest window there is, far below the one
of 4095. -/
theorem not_exactSizes_capacity :
    ({ upCap := some 4096 } : KCPConfig).build = .ok { uplinkCapacity := some 4096 } ∧
      ({ uplinkCapacity := some 4096 } : Kcp.Config).getSendingInFlightSize = 8 ∧
      ({ uplinkCapacity := some 4095 } : Kcp.Config).getSendingInFlightSize = 159034 ∧
      ¬ ExactSizes { upCap := some 4096 } { uplinkCapacity := some 4096 } := by
  refine ⟨rfl, by decide, by decide, fun hexact => ?_⟩
  exact absurd hexact.sendingInFlight (by decide)

end V2RootCore.Conf
