import V2RootCore.Proof.Go.Slices
import V2RootCore.Tls.Sniff

/-!
# No client hello makes the sniffer panic

Every length in the message is compared with what is left before it is used.
-/

namespace V2RootCore.Tls

open Go

variable {data : Bytes}

theorem safe_twoBytesAt {i : Int} (hlow : 0 ≤ i) (hhigh : i + 1 < data.length) :
    Safe (twoBytesAt data i) fun _ => True := by
  refine (safe_byteAt hlow (by omega)).bind fun high _ => ?_
  exact (safe_byteAt (by omega) hhigh).bind fun low _ => .ok trivial

theorem safe_serverNameEntry (d : Bytes) : Safe (serverNameEntry d)
    (Sum.elim (fun _ => True) fun d' => True ∧ d'.length < d.length) := by
  rw [serverNameEntry]
  refine .ite (fun _ => .ok trivial) fun _ => .ite (fun _ => .error nofun) fun hthree => ?_
  refine (safe_byteAt le_rfl (by omega)).bind fun nameType _ => ?_
  refine (safe_twoBytesAt (by omega) (by omega)).bind fun nameLen _ => ?_
  refine (safe_sliceFrom (by omega) (by omega)).bind fun d' hd' => ?_
  refine .ite (fun _ => .error nofun) fun hname => ?_
  refine (safe_slice le_rfl (by omega) (by omega)).bind fun name _ => .ite (fun _ => ?_) fun _ => ?_
  · exact .ite (fun _ => .error nofun) fun _ => .ite (fun _ => .error nofun) fun _ => .ok trivial
  · refine (safe_sliceFrom (by omega) (by omega)).bind fun d'' hd'' => .ok ⟨trivial, ?_⟩
    omega

theorem safe_serverName (d : Bytes) : Safe (serverName d) fun _ => True := by
  rw [serverName]
  refine .ite (fun _ => .error nofun) fun htwo => ?_
  refine (safe_twoBytesAt le_rfl (by omega)).bind fun namesLen _ => ?_
  refine (safe_sliceFrom (by omega) (by omega)).bind fun d' _ => .ite (fun _ => .error nofun) fun _ => ?_
  exact safe_loop (fun _ => True) List.length (fun d _ => safe_serverNameEntry d) trivial
    (Nat.lt_succ_self _)

theorem safe_extension (data : Bytes) : Safe (extension data)
    (Sum.elim (fun _ => True) fun data' => True ∧ data'.length < data.length) := by
  rw [extension]
  refine .ite (fun _ => .error nofun) fun _ => .ite (fun _ => .error nofun) fun hfour => ?_
  refine (safe_twoBytesAt le_rfl (by omega)).bind fun extension _ => ?_
  refine (safe_twoBytesAt (by omega) (by omega)).bind fun length _ => ?_
  refine (safe_sliceFrom (by omega) (by omega)).bind fun data' hdata' => ?_
  refine .ite (fun _ => .error nofun) fun hlength => ?_
  have hname : Safe (extensionName extension data' length) fun _ => True := by
    refine .ite (fun _ => ?_) fun _ => .ok trivial
    exact (safe_slice le_rfl (by omega) (by omega)).bind fun d _ => safe_serverName d
  refine hname.bind fun name _ => ?_
  cases name with
  | some name => exact .ok trivial
  | none =>
      refine (safe_sliceFrom (by omega) (by omega)).bind fun data'' hdata'' => .ok ⟨trivial, ?_⟩
      omega

/-- **`ReadClientHello` does not panic.** -/
theorem safe_readClientHello (data : Bytes) : Safe (readClientHello data) fun _ => True := by
  rw [readClientHello]
  refine .ite (fun _ => .error nofun) fun hlength => ?_
  refine (safe_byteAt (by omega) (by omega)).bind fun sessionIDLen _ => ?_
  refine .ite (fun _ => .error nofun) fun hsession => ?_
  refine (safe_sliceFrom (by omega) (by omega)).bind fun data hdata => ?_
  refine .ite (fun _ => .error nofun) fun htwo => ?_
  refine (safe_twoBytesAt le_rfl (by omega)).bind fun cipherSuiteLen _ => ?_
  refine .ite (fun _ => .error nofun) fun hcipher => ?_
  refine (safe_sliceFrom (by omega) (by omega)).bind fun data hdata => ?_
  refine .ite (fun _ => .error nofun) fun hone => ?_
  refine (safe_byteAt le_rfl (by omega)).bind fun compressionMethodsLen _ => ?_
  refine .ite (fun _ => .error nofun) fun hcompression => ?_
  refine (safe_sliceFrom (by omega) (by omega)).bind fun data hdata => ?_
  refine .ite (fun _ => .error nofun) fun htwo => ?_
  refine (safe_twoBytesAt le_rfl (by omega)).bind fun extensionsLength _ => ?_
  refine (safe_sliceFrom (by omega) (by omega)).bind fun data _ => ?_
  refine .ite (fun _ => .error nofun) fun _ => ?_
  exact safe_loop (fun _ => True) List.length (fun data _ => safe_extension data) trivial
    (Nat.lt_succ_self _)

end V2RootCore.Tls
