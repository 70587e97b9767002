import V2RootCore.Go.Io

/-!
# Numbers of two bytes and full reads
-/

namespace V2RootCore.Go

theorem toNat_ofNat_uint16 {n : Nat} (hn : n < 65536) : (UInt16.ofNat n).toNat = n := by
  rw [UInt16.toNat_ofNat', Nat.mod_eq_of_lt hn]

theorem uint16_putUint16 (n : UInt16) : uint16 (putUint16 n) = n := by
  apply UInt16.toNat.inj
  have hn := n.toNat_lt
  simp only [putUint16, uint16, UInt8.toNat_ofNat', UInt16.toNat_ofNat']
  omega

theorem putUint16_uint16 (high low : UInt8) (rest : Bytes) :
    putUint16 (uint16 (high :: low :: rest)) = [high, low] := by
  have hhigh := high.toNat_lt
  have hlow := low.toNat_lt
  rw [putUint16, uint16, toNat_ofNat_uint16 (by omega)]
  congr 2
  · rw [show (256 * high.toNat + low.toNat) / 256 = high.toNat by omega, UInt8.ofNat_toNat]
  · apply UInt8.toNat.inj
    rw [UInt8.toNat_ofNat']
    omega

theorem readFull_of_length {n : Nat} {first : Bytes} (hlength : first.length = n) (rest : Bytes) :
    readFull n (first ++ rest) = .ok (⟨first, hlength⟩, rest) := by
  have hle : n ≤ (first ++ rest).length := by simp [hlength]
  rw [readFull, dif_pos hle]
  congr 2
  · exact Subtype.ext (by simp [← hlength])
  · simp [← hlength]

theorem readFull_one (byte : UInt8) (rest : Bytes) :
    readFull 1 (byte :: rest) = .ok (⟨[byte], rfl⟩, rest) :=
  @readFull_of_length 1 [byte] rfl rest

theorem exists_of_vector_two (data : List.Vector UInt8 2) :
    data.toList = [data.toList.getD 0 0, data.toList.getD 1 0] := by
  obtain ⟨data, hlength⟩ := data
  obtain ⟨first, second, rfl⟩ := List.length_eq_two.mp hlength
  rfl

theorem exists_of_vector_one (data : List.Vector UInt8 1) : data.toList = [data.head] := by
  obtain ⟨data, hlength⟩ := data
  obtain ⟨first, rfl⟩ := List.length_eq_one_iff.mp hlength
  rfl

end V2RootCore.Go
