import V2RootCore.Net.Address
import V2RootCore.Proof.Go.Io
import V2RootCore.Proof.Go.Strings

/-!
# Addresses that survive the wire

An address that can be written is read back with nothing taken from what follows it. What is read may
be another form of the same address: an IPv6 address that stands for an IPv4 one, or a domain that is
the text of an IP address.
-/

namespace V2RootCore.Net

open Go

/-- What a domain on the wire has to be. -/
structure ValidDomain (name : Bytes) : Prop where
  nonempty : name ≠ []
  length : name.length ≤ 255
  chars : AddressParser.isValidDomain name = true

def Address.Valid : Address → Prop
  | .ipv4 _ => True
  | .ipv6 _ => True
  | .domain name => ValidDomain name

/-- The address that is read when this one was written. -/
def Address.decoded : Address → Address
  | .ipv4 ip => .ipv4 ip
  | .ipv6 ip => ipAddress ip
  | .domain name =>
      if name.head?.any AddressParser.maybeIPPrefix && (parseAddress name).family.isIP then
        parseAddress name
      else .domain name

/-- The addresses that `IPAddress` and `DomainAddress` make: a domain is not the text of an IP address. -/
def Address.Proper : Address → Prop
  | .ipv4 _ => True
  | .ipv6 ip => ip.toList.take 12 ≠ v4InV6Prefix
  | .domain name => ValidDomain name ∧ (parseAddress name).family = .domain

/-- How many bytes an address takes. -/
def Address.wireSize : Address → Nat
  | .ipv4 _ => 5
  | .ipv6 _ => 17
  | .domain name => 2 + name.length

/-- The addresses that are read as they were written. -/
def Address.Plain (address : Address) : Prop := address.Valid ∧ address.decoded = address

/-- The addresses that are not written. -/
def Address.TooLong : Address → Prop
  | .domain name => 256 < name.length
  | _ => False

theorem Address.Proper.valid {address : Address} (h : address.Proper) : address.Valid := by
  cases address with
  | ipv4 ip => trivial
  | ipv6 ip => trivial
  | domain name => exact h.1

theorem Address.Proper.decoded {address : Address} (h : address.Proper) : address.decoded = address := by
  cases address with
  | ipv4 ip => rfl
  | ipv6 ip => exact if_neg h
  | domain name =>
      have hfamily : (parseAddress name).family = .domain := h.2
      rw [Address.decoded, hfamily]
      simp [AddressFamily.isIP]

theorem Address.Valid.not_tooLong {address : Address} (h : address.Valid) : ¬address.TooLong := by
  cases address with
  | ipv4 ip => exact id
  | ipv6 ip => exact id
  | domain name =>
      have hlength : name.length ≤ 255 := h.length
      exact Nat.not_lt.mpr (by omega)

theorem Address.Valid.wireSize_le {address : Address} (h : address.Valid) :
    3 ≤ address.wireSize ∧ address.wireSize ≤ 257 := by
  cases address with
  | ipv4 ip => simp [Address.wireSize]
  | ipv6 ip => simp [Address.wireSize]
  | domain name =>
      have hlength : name.length ≤ 255 := h.length
      have hpos : 0 < name.length := List.length_pos_iff.mpr h.nonempty
      rw [Address.wireSize]
      omega

instance (name : Bytes) : Decidable (ValidDomain name) :=
  decidable_of_iff (name ≠ [] ∧ name.length ≤ 255 ∧ AddressParser.isValidDomain name = true)
    ⟨fun h => ⟨h.1, h.2.1, h.2.2⟩, fun h => ⟨h.1, h.2, h.3⟩⟩

namespace AddressParser

theorem checkDomain_of_valid {name : Bytes} (hname : ValidDomain name) :
    checkDomain name = .ok (Address.domain name).decoded := by
  unfold checkDomain Address.decoded
  by_cases hip : (name.head?.any maybeIPPrefix && (parseAddress name).family.isIP) = true
  · simp only [hip, if_true]
  · simp only [hip, Bool.false_eq_true, if_false, hname.chars, if_true]

theorem decoded_of_checkDomain {name : Bytes} (h : checkDomain name = .ok (.domain name)) :
    isValidDomain name = true ∧ (Address.domain name).decoded = .domain name := by
  rw [checkDomain] at h
  rw [Address.decoded]
  by_cases hip : (name.head?.any maybeIPPrefix && (parseAddress name).family.isIP) = true
  · rw [if_pos hip] at h
    have hfamily : (parseAddress name).family.isIP = true := (Bool.and_eq_true_iff.mp hip).2
    rw [Except.ok.inj h] at hfamily
    cases hfamily
  · rw [if_neg hip] at h ⊢
    split_ifs at h with hvalid
    exact ⟨hvalid, rfl⟩

theorem checkDomain_zero {tb : UInt8} (hbyte : maybeIPPrefix tb = false) (address : Address) :
    checkDomain [tb, 0] ≠ .ok address := by
  have hip : ¬([tb, 0].head?.any maybeIPPrefix && (parseAddress [tb, 0]).family.isIP) = true := by
    rw [List.head?_cons, Option.any_some, hbyte, Bool.false_and]
    exact Bool.false_ne_true
  have hvalid : isValidDomain [tb, 0] = false := by
    have hzero : (isAlphanumeric 0 || (0 : UInt8) = 45 || (0 : UInt8) = 46 || (0 : UInt8) = 95) = false := by
      decide
    simp only [isValidDomain, List.all_cons, hzero, Bool.false_and, Bool.and_false]
  rw [checkDomain, if_neg hip, hvalid]
  exact nofun

variable {p : AddressParser} {address : Address} {tb : UInt8}

theorem readAddress_domain {name : Bytes} (htype : p.addrType (p.typeParser tb) = some .domain)
    (hne : name ≠ []) (hlength : name.length ≤ 255) (b rest : Bytes) :
    p.readAddress b (tb :: UInt8.ofNat name.length :: name ++ rest) =
      checkDomain name >>= fun addr => .ok (addr, rest) := by
  have hnat : name.length = (UInt8.ofNat name.length).toNat := by
    rw [UInt8.toNat_ofNat', Nat.mod_eq_of_lt (by omega)]
  have hzero : UInt8.ofNat name.length ≠ 0 := by
    intro hzero
    rw [hzero] at hnat
    exact hne (List.length_eq_zero_iff.mp hnat)
  simp only [List.cons_append, readAddress, readAddressFrom, bind, StateT.bind, readFull_one, Except.bind,
    List.Vector.head, htype, readFull_of_length hnat rest]
  have hdomain : (if UInt8.ofNat name.length = 0 then b ++ [tb] ++ [UInt8.ofNat name.length] else name) =
      name := if_neg hzero
  exact congrArg (fun domain => checkDomain domain >>= fun addr => Except.ok (addr, rest)) hdomain

theorem readAddress_zero (htype : p.addrType (p.typeParser tb) = some .domain) (b rest : Bytes) :
    p.readAddress b (tb :: 0 :: rest) = checkDomain (b ++ [tb, 0]) >>= fun addr => .ok (addr, rest) := by
  have hnone : readFull (UInt8.toNat 0) rest = .ok (⟨[], rfl⟩, rest) :=
    @readFull_of_length 0 [] rfl rest
  simp only [readAddress, readAddressFrom, bind, StateT.bind, readFull_one, Except.bind, List.Vector.head,
    htype, hnone, if_true, StateT.lift, List.Vector.toList, List.append_assoc, List.cons_append, List.nil_append]
  rfl

theorem readAddress_write {content : Bytes} (hvalid : address.Valid)
    (hbyte : p.addrByte address.family = some tb)
    (htype : p.addrType (p.typeParser tb) = some address.family)
    (hwrite : p.writeAddress (some address) = .ok content) (b rest : Bytes) :
    p.readAddress b (content ++ rest) = .ok (address.decoded, rest) := by
  cases address with
  | ipv4 ip =>
      obtain rfl : tb :: ip.toList = content := by simpa [writeAddress, hbyte] using hwrite
      have hread : readFull _ (ip.toList ++ rest) = .ok (ip, rest) := readFull_of_length ip.2 rest
      simp only [List.cons_append, readAddress, readAddressFrom, bind, StateT.bind, readFull_one, Except.bind,
        List.Vector.head, htype, Address.family, hread, Address.decoded]
      rfl
  | ipv6 ip =>
      obtain rfl : tb :: ip.toList = content := by simpa [writeAddress, hbyte] using hwrite
      have hread : readFull _ (ip.toList ++ rest) = .ok (ip, rest) := readFull_of_length ip.2 rest
      simp only [List.cons_append, readAddress, readAddressFrom, bind, StateT.bind, readFull_one, Except.bind,
        List.Vector.head, htype, Address.family, hread, Address.decoded]
      rfl
  | domain name =>
      have hlength : name.length ≤ 255 := hvalid.length
      have hshort : isDomainTooLong name = false := by
        simp only [isDomainTooLong, decide_eq_false_iff_not]
        omega
      obtain rfl : tb :: UInt8.ofNat name.length :: name = content := by
        simpa [writeAddress, hbyte, hshort] using hwrite
      have hread := readAddress_domain htype hvalid.nonempty hlength b rest
      rw [checkDomain_of_valid hvalid] at hread
      exact hread

theorem plain_of_readAddress {content rest rest' : Bytes} (hbyte : p.addrByte address.family = some tb)
    (htype : p.addrType (p.typeParser tb) = some address.family) (htb : maybeIPPrefix tb = false)
    (hwrite : p.writeAddress (some address) = .ok content)
    (hread : p.readAddress [] (content ++ rest) = .ok (address, rest')) : address.Plain := by
  cases address with
  | ipv4 ip => exact ⟨trivial, rfl⟩
  | ipv6 ip =>
      have hvalid : (Address.ipv6 ip).Valid := trivial
      rw [readAddress_write hvalid hbyte htype hwrite] at hread
      exact ⟨trivial, (Prod.mk.inj (Except.ok.inj hread)).1⟩
  | domain name =>
      rw [writeAddress, hbyte] at hwrite
      dsimp only at hwrite
      split_ifs at hwrite with hlong
      obtain rfl := Except.ok.inj hwrite
      have hshort : name.length ≤ 256 := by simpa [isDomainTooLong] using hlong
      by_cases hzero : UInt8.ofNat name.length = 0
      · rw [hzero, List.cons_append, List.cons_append, readAddress_zero htype] at hread
        obtain ⟨addr, hcheck, -⟩ := bind_eq_ok.mp hread
        exact absurd hcheck (checkDomain_zero htb addr)
      · have hne : name ≠ [] := fun h => hzero (by rw [h]; rfl)
        have hlength : name.length ≤ 255 := by
          by_contra hlong
          exact hzero (by rw [show name.length = 256 by omega]; rfl)
        rw [readAddress_domain htype hne hlength] at hread
        obtain ⟨addr, hcheck, hresult⟩ := bind_eq_ok.mp hread
        rw [(Prod.mk.inj (Except.ok.inj hresult)).1] at hcheck
        obtain ⟨hchars, hdecoded⟩ := decoded_of_checkDomain hcheck
        exact ⟨⟨hne, hlength, hchars⟩, hdecoded⟩

theorem readAddressPort_last (hlast : p.portFirst = false) (input : Bytes) :
    p.readAddressPort input = p.readAddress [] input >>= fun read =>
      readFull 2 read.2 >>= fun port => .ok ((read.1, uint16 port.1.toList), port.2) := by
  rw [readAddressPort, readAddressPortFrom, hlast]
  rfl

theorem readAddressPort_write_last {content : Bytes} (hlast : p.portFirst = false)
    (hvalid : address.Valid) (hbyte : p.addrByte address.family = some tb)
    (htype : p.addrType (p.typeParser tb) = some address.family)
    (hwrite : p.writeAddress (some address) = .ok content) (port : UInt16) (rest : Bytes) :
    p.readAddressPort (content ++ putUint16 port ++ rest) = .ok ((address.decoded, port), rest) := by
  have hread := readAddress_write hvalid hbyte htype hwrite [] (putUint16 port ++ rest)
  have hfull : readFull 2 (putUint16 port ++ rest) = .ok (⟨putUint16 port, rfl⟩, rest) :=
    @readFull_of_length 2 (putUint16 port) rfl _
  rw [List.append_assoc, readAddressPort_last hlast, hread]
  simp only [bind, Except.bind, hfull, List.Vector.toList, uint16_putUint16]

theorem length_writeAddress {content : Bytes} (hwrite : p.writeAddress (some address) = .ok content) :
    content.length = address.wireSize := by
  rw [writeAddress] at hwrite
  split at hwrite
  · cases hwrite
  cases address with
  | ipv4 ip =>
      obtain rfl := Except.ok.inj hwrite
      rw [List.length_cons, List.Vector.toList_length, Address.wireSize]
  | ipv6 ip =>
      obtain rfl := Except.ok.inj hwrite
      rw [List.length_cons, List.Vector.toList_length, Address.wireSize]
  | domain name =>
      dsimp only at hwrite
      split_ifs at hwrite
      obtain rfl := Except.ok.inj hwrite
      rw [List.length_cons, List.length_cons, Address.wireSize]
      omega

/-- Every family has a byte, which is read as that family and begins no IP address. -/
def Complete (p : AddressParser) : Prop :=
  ∀ family, ∃ tb, p.addrByte family = some tb ∧ p.addrType (p.typeParser tb) = some family ∧
    maybeIPPrefix tb = false

theorem writeAddress_of_short (hbyte : p.addrByte address.family = some tb) (hshort : ¬address.TooLong) :
    ∃ content, p.writeAddress (some address) = .ok (tb :: content) := by
  cases address with
  | ipv4 ip => exact ⟨ip.toList, by simp [writeAddress, hbyte]⟩
  | ipv6 ip => exact ⟨ip.toList, by simp [writeAddress, hbyte]⟩
  | domain name =>
      have hlong : isDomainTooLong name = false := decide_eq_false hshort
      exact ⟨UInt8.ofNat name.length :: name, by simp [writeAddress, hbyte, hlong]⟩

theorem writeAddressPort_of_short (hlast : p.portFirst = false) (hcomplete : p.Complete)
    (hshort : ¬address.TooLong) (port : UInt16) :
    ∃ tb content, p.addrByte address.family = some tb ∧
      p.writeAddressPort (some address) port = .ok (tb :: content) ∧
      (tb :: content).length = address.wireSize + 2 ∧
      (address.Valid → ∀ rest,
        p.readAddressPort (tb :: content ++ rest) = .ok ((address.decoded, port), rest)) ∧
      ∀ rest port' rest',
        p.readAddressPort (tb :: content ++ rest) = .ok ((address, port'), rest') → address.Plain := by
  obtain ⟨tb, hbyte, htype, htb⟩ := hcomplete address.family
  obtain ⟨content, hwrite⟩ := writeAddress_of_short hbyte hshort
  refine ⟨tb, content ++ putUint16 port, hbyte, ?_, ?_, fun hvalid rest => ?_, fun rest port' rest' h => ?_⟩
  · rw [writeAddressPort, hwrite, hlast]
    rfl
  · rw [← List.cons_append, List.length_append, length_writeAddress hwrite]
    rfl
  · exact readAddressPort_write_last hlast hvalid hbyte htype hwrite port rest
  · rw [readAddressPort_last hlast, ← List.cons_append, List.append_assoc] at h
    obtain ⟨⟨addr, input⟩, hread, hrest⟩ := bind_eq_ok.mp h
    obtain ⟨⟨portBytes, input'⟩, -, hresult⟩ := bind_eq_ok.mp hrest
    obtain rfl : addr = address := (Prod.mk.inj (Prod.mk.inj (Except.ok.inj hresult)).1).1
    exact plain_of_readAddress hbyte htype htb hwrite hread

end AddressParser

end V2RootCore.Net
