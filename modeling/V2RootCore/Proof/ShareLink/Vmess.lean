import V2RootCore.Proof.ShareLink.Link

/-!
# Parsed VMess links

The outbound of a VMess link that is accepted, in terms of the keys of its object.
-/

namespace V2RootCore.ShareLink

open Go

section Parsed

variable {unmarshal : Bytes → Option (Map Json)} {rawURL : Bytes} {args : ParseArgs} {get : String → Option Json}
  {vnext : VmessVnext}

theorem parseVmess_eq_ok {config : OutputConfig} (h : parseVmess unmarshal rawURL args = .ok config) :
    ∃ get vnext, vmessVnext get = .ok vnext ∧ config.outbounds = withDefaultOutbounds
      (vmessOutbound (stringOrEmpty (get "ps")) vnext (vmessStreamSettings get)) := by
  unfold parseVmess at h
  split at h
  · cases h
  split at h
  · cases h
  split at h
  · cases h
  rename_i data _
  obtain ⟨vnext, hvnext, h⟩ := bind_eq_ok.mp h
  refine ⟨Json.get data, vnext, hvnext, ?_⟩
  rw [← Except.ok.inj h]
  rfl

end Parsed

end V2RootCore.ShareLink
