import V2RootCore.Proof.Go.Io
import V2RootCore.Proof.Tls.Sniff

/-!
# The grammar of a client hello

A list stands behind its length, of one byte or of two. The sniffer accepts exactly the messages that are
made of such lists, and its result is the first name of a host that it comes to.
-/

namespace V2RootCore.Tls

open Go

def vector8 (body : Bytes) : Bytes := UInt8.ofNat body.length :: body

def vector16 (body : Bytes) : Bytes := putUint16 (UInt16.ofNat body.length) ++ body

/-- A list of server names, and its first name of a host. What follows that name is not looked at. -/
inductive NameList : Bytes → Option Bytes → Prop
  | nil : NameList [] none
  | host (name rest : Bytes) (hlength : name.length < 65536) (hvisible : ∀ x ∈ name, 32 < x)
      (hdot : name.getLast? ≠ some 46) : NameList (0 :: vector16 name ++ rest) (some name)
  | other (type : UInt8) (name rest : Bytes) (host : Option Bytes) (htype : type ≠ 0)
      (hlength : name.length < 65536) (hrest : NameList rest host) :
      NameList (type :: vector16 name ++ rest) host

/-- Extensions of which this is the first name of a host. -/
inductive Extensions : Bytes → Bytes → Prop
  | named (names rest name : Bytes) (hlength : names.length + 2 < 65536)
      (hnames : NameList names (some name)) :
      Extensions (0 :: 0 :: vector16 (vector16 names) ++ rest) name
  | nameless (names rest name : Bytes) (hlength : names.length + 2 < 65536)
      (hnames : NameList names none) (hrest : Extensions rest name) :
      Extensions (0 :: 0 :: vector16 (vector16 names) ++ rest) name
  | other (high low : UInt8) (body rest name : Bytes) (htype : 256 * high.toNat + low.toNat ≠ 0)
      (hlength : body.length < 65536) (hrest : Extensions rest name) :
      Extensions (high :: low :: vector16 body ++ rest) name

structure ClientHello where
  header : Bytes
  sessionID : Bytes
  cipherSuites : Bytes
  compressionMethods : Bytes
  extensions : Bytes
  header_length : header.length = 38
  sessionID_length : sessionID.length ≤ 32
  cipherSuites_length : cipherSuites.length < 65536
  cipherSuites_even : cipherSuites.length % 2 = 0
  compressionMethods_length : compressionMethods.length < 256
  extensions_length : extensions.length < 65536

def ClientHello.bytes (hello : ClientHello) : Bytes :=
  hello.header ++ vector8 hello.sessionID ++ vector16 hello.cipherSuites ++
    vector8 hello.compressionMethods ++ vector16 hello.extensions

section Bytes

variable {data body : Bytes}

theorem byteAt_append (front : Bytes) {i : Int} (hi : i = front.length) (x : UInt8) (rest : Bytes) :
    byteAt (front ++ x :: rest) i = .ok x := by
  have hget : (front ++ x :: rest)[front.length]? = some x := by
    rw [List.getElem?_append_right le_rfl, Nat.sub_self]
    rfl
  rw [byteAt, hi, if_pos (by rw [List.length_append, List.length_cons]; omega), Int.toNat_natCast,
    List.getD_eq_getElem?_getD, hget]
  rfl

theorem sliceFrom_append {front : Bytes} {n : Int} (hn : n = front.length) (rest : Bytes) :
    sliceFrom (front ++ rest) n = .ok rest := by
  rw [sliceFrom, slice, hn, if_pos (by rw [List.length_append]; omega), Int.toNat_natCast,
    Int.toNat_natCast, List.take_length, List.drop_left]

theorem slice_append {n : Int} (hn : n = body.length) (rest : Bytes) :
    slice (body ++ rest) 0 n = .ok body := by
  rw [slice, hn, if_pos (by rw [List.length_append]; omega), Int.toNat_natCast, List.take_left]
  rfl

theorem length_vector16 : (vector16 body).length = body.length + 2 := by
  rw [vector16, List.length_append, putUint16, Nat.add_comm]
  rfl

theorem twoBytesAt_eq (front : Bytes) {i : Int} (hi : i = front.length) (high low : UInt8)
    (rest : Bytes) :
    twoBytesAt (front ++ high :: low :: rest) i = .ok (256 * high.toNat + low.toNat) := by
  have hlow := byteAt_append (front ++ [high]) (i := i + 1)
    (by rw [List.length_append, hi]; rfl) low rest
  rw [List.append_assoc, List.singleton_append] at hlow
  rw [twoBytesAt, byteAt_append front hi, ok_bind, hlow, ok_bind]

theorem twoBytesAt_vector16 (front : Bytes) {i : Int} (hi : i = front.length)
    (hbody : body.length < 65536) (rest : Bytes) :
    twoBytesAt (front ++ (vector16 body ++ rest)) i = .ok body.length := by
  have hvalue : 256 * (UInt8.ofNat (body.length / 256)).toNat + (UInt8.ofNat body.length).toNat =
      body.length := by
    rw [UInt8.toNat_ofNat', UInt8.toNat_ofNat']
    omega
  have htwo := twoBytesAt_eq front hi (UInt8.ofNat (body.length / 256)) (UInt8.ofNat body.length)
    (body ++ rest)
  rw [hvalue] at htwo
  rw [vector16, putUint16, toNat_ofNat_uint16 hbody]
  exact htwo

theorem twoBytesAt_drop (front : Bytes) {i : Int} (hi : i = front.length) (data : Bytes) :
    twoBytesAt (front ++ data) i = twoBytesAt data 0 := by
  have hbyte : ∀ j : Nat, byteAt (front ++ data) (front.length + j) = byteAt data j := by
    intro j
    have hrange : (0 ≤ (front.length : Int) + j ∧ (front.length : Int) + j < (front ++ data).length) ↔
        0 ≤ (j : Int) ∧ (j : Int) < data.length := by
      rw [List.length_append]
      omega
    have hget : (front ++ data).getD ((front.length : Int) + j).toNat 0 = data.getD (j : Int).toNat 0 := by
      rw [List.getD_eq_getElem?_getD, List.getElem?_append_right (by omega), List.getD_eq_getElem?_getD]
      congr 2
      omega
    rw [byteAt, byteAt, hget]
    exact if_congr hrange rfl rfl
  rw [twoBytesAt, twoBytesAt, hi]
  have hzero := hbyte 0
  rw [Nat.cast_zero, add_zero] at hzero
  rw [hzero]
  exact congrArg (byteAt data 0 >>= ·) (funext fun high => congrArg (· >>= _) (hbyte 1))

theorem exists_vector8 {x : UInt8} (hx : byteAt data 0 = .ok x) (hle : x.toNat + 1 ≤ data.length) :
    ∃ body rest, body.length = x.toNat ∧ data = vector8 body ++ rest := by
  obtain _ | ⟨y, data⟩ := data
  · cases hx
  · obtain rfl := Except.ok.inj ((byteAt_append [] rfl y data).symm.trans hx)
    have hlength : (data.take y.toNat).length = y.toNat := by
      rw [List.length_take, min_eq_left (Nat.le_of_succ_le_succ hle)]
    refine ⟨data.take y.toNat, data.drop y.toNat, hlength, ?_⟩
    rw [vector8, hlength, UInt8.ofNat_toNat, List.cons_append, List.take_append_drop]

theorem exists_vector16 {n : Nat} (hn : twoBytesAt data 0 = .ok n) (hle : n + 2 ≤ data.length) :
    ∃ body rest, body.length = n ∧ body.length < 65536 ∧ data = vector16 body ++ rest := by
  obtain _ | ⟨high, _ | ⟨low, data⟩⟩ := data
  · exact absurd hle (by simp)
  · exact absurd hle (by simp)
  · obtain rfl := Except.ok.inj ((twoBytesAt_eq [] rfl high low data).symm.trans hn)
    have hhigh := high.toNat_lt
    have hlow := low.toNat_lt
    have hlength : (data.take (256 * high.toNat + low.toNat)).length = 256 * high.toNat + low.toNat := by
      rw [List.length_take, min_eq_left (by simpa using hle)]
    refine ⟨data.take _, data.drop (256 * high.toNat + low.toNat), hlength, by omega, ?_⟩
    have hbytes : putUint16 (UInt16.ofNat (256 * high.toNat + low.toNat)) = [high, low] := by
      rw [putUint16, toNat_ofNat_uint16 (by omega)]
      refine congrArg₂ (fun x y => [x, y]) ?_ ?_
      · rw [show (256 * high.toNat + low.toNat) / 256 = high.toNat by omega, UInt8.ofNat_toNat]
      · refine UInt8.toNat_inj.mp ?_
        rw [UInt8.toNat_ofNat']
        omega
    rw [vector16, hlength, hbytes, List.append_assoc, List.take_append_drop]
    rfl

end Bytes

theorem exists_of_loop {ρ : Type} {body : Bytes → Except Error (ρ ⊕ Bytes)} {P : Prop} {fuel : Nat}
    {data : Bytes} {result : ρ} (h : loop .panicked body (fuel + 1) data = .ok result)
    (hbody : ∀ {next}, body data = .ok next → P) : P := by
  rw [loop] at h
  cases hnext : body data with
  | error err =>
      rw [hnext] at h
      cases h
  | ok next => exact hbody hnext

section Names

variable {d : Bytes}

theorem serverNameEntry_eq (type : UInt8) {name : Bytes} (hname : name.length < 65536) (rest : Bytes) :
    serverNameEntry (type :: vector16 name ++ rest) =
      if type = 0 then
        if name.any (· ≤ 32) then .error errProtoNeedMoreData
        else if name.getLast? = some 46 then .error errNotClientHello
        else .ok (.inl (some name))
      else .ok (.inr rest) := by
  have hsplit : type :: vector16 name ++ rest =
      type :: putUint16 (UInt16.ofNat name.length) ++ (name ++ rest) := by
    rw [vector16, List.cons_append, List.append_assoc]
    rfl
  have hlength : ¬(type :: vector16 name ++ rest).length < 3 := by
    rw [List.length_append, List.length_cons, length_vector16]
    omega
  have htype : byteAt (type :: vector16 name ++ rest) 0 = .ok type :=
    byteAt_append [] rfl type _
  have htwo : twoBytesAt (type :: vector16 name ++ rest) 1 = .ok name.length :=
    twoBytesAt_vector16 [type] rfl hname rest
  have hrest : sliceFrom (type :: vector16 name ++ rest) 3 = .ok (name ++ rest) := by
    rw [hsplit]
    exact sliceFrom_append rfl _
  have hne : type :: vector16 name ++ rest ≠ [] := List.cons_ne_nil _ _
  rw [serverNameEntry, if_neg hne, if_neg hlength, htype, ok_bind, htwo, ok_bind,
    hrest, ok_bind, if_neg (by rw [List.length_append]; omega), slice_append rfl, ok_bind]
  refine if_congr Iff.rfl rfl ?_
  rw [sliceFrom_append rfl, ok_bind]

theorem exists_of_serverNameEntry {next : Option Bytes ⊕ Bytes} (h : serverNameEntry d = .ok next) :
    d = [] ∨ ∃ type name rest, name.length < 65536 ∧ d = type :: vector16 name ++ rest := by
  obtain _ | ⟨type, d⟩ := d
  · exact .inl rfl
  rw [serverNameEntry, if_neg (List.cons_ne_nil _ _)] at h
  obtain ⟨hthree, h⟩ := ite_error_eq_ok.mp h
  obtain ⟨nameType, -, h⟩ := bind_eq_ok.mp h
  obtain ⟨nameLen, hnameLen, h⟩ := bind_eq_ok.mp h
  obtain ⟨d', hd', h⟩ := bind_eq_ok.mp h
  obtain ⟨hle, -⟩ := ite_error_eq_ok.mp h
  have hlength := (safe_sliceFrom (by omega) (by omega)).2 _ hd'
  have htwo := (twoBytesAt_drop [type] rfl d).symm.trans hnameLen
  rw [List.length_cons] at hlength
  obtain ⟨name, rest, -, hname, rfl⟩ := exists_vector16 htwo (by omega)
  exact .inr ⟨type, name, rest, hname, rfl⟩

theorem loop_serverNameEntry_iff {fuel : Nat} (hfuel : d.length < fuel) (host : Option Bytes) :
    loop .panicked serverNameEntry fuel d = .ok host ↔ NameList d host := by
  induction fuel generalizing d with
  | zero => exact absurd hfuel (Nat.not_lt_zero _)
  | succ fuel ih =>
      constructor
      · intro h
        obtain rfl | ⟨type, name, rest, hname, rfl⟩ := exists_of_loop h exists_of_serverNameEntry
        · obtain rfl : none = host := Except.ok.inj h
          exact .nil
        rw [loop, serverNameEntry_eq type hname] at h
        by_cases htype : type = 0
        · rw [if_pos htype] at h
          split_ifs at h with hany hdot
          obtain rfl : some name = host := Except.ok.inj h
          rw [htype]
          exact .host name rest hname (by simpa using hany) hdot
        · rw [if_neg htype] at h
          refine .other type name rest host htype hname ((ih ?_).mp h)
          rw [List.length_append, List.length_cons] at hfuel
          omega
      · intro h
        rw [loop]
        cases h with
        | nil => rfl
        | host name rest hlength hvisible hdot =>
            have hany : ¬name.any (· ≤ 32) := by simpa using hvisible
            rw [serverNameEntry_eq _ hlength, if_pos rfl, if_neg hany, if_neg hdot]
        | other type name rest host htype hlength hrest =>
            rw [serverNameEntry_eq _ hlength, if_neg htype]
            refine (ih ?_).mpr hrest
            rw [List.length_append, List.length_cons] at hfuel
            omega

theorem serverName_iff (host : Option Bytes) : serverName d = .ok host ↔
    ∃ names, names.length < 65536 ∧ d = vector16 names ∧ NameList names host := by
  constructor
  · intro h
    obtain ⟨htwo, h⟩ := ite_error_eq_ok.mp h
    obtain ⟨namesLen, hnamesLen, h⟩ := bind_eq_ok.mp h
    obtain ⟨names', hnames', h⟩ := bind_eq_ok.mp h
    obtain ⟨hlen, h⟩ := ite_error_eq_ok.mp h
    have hlength := (safe_sliceFrom (by omega) (by omega)).2 _ hnames'
    obtain ⟨names, rest, hnames, hlt, rfl⟩ := exists_vector16 hnamesLen (by omega)
    have hrest : rest = [] := by
      rw [List.length_append, length_vector16] at hlength
      exact List.eq_nil_of_length_eq_zero (by omega)
    rw [hrest, List.append_nil] at hnames' ⊢
    obtain rfl := Except.ok.inj ((sliceFrom_append rfl names).symm.trans hnames')
    exact ⟨names, hlt, rfl, (loop_serverNameEntry_iff (Nat.lt_succ_self _) host).mp h⟩
  · rintro ⟨names, hlength, rfl, hnames⟩
    have htwo : twoBytesAt (vector16 names) 0 = .ok names.length := by
      have hvector := twoBytesAt_vector16 [] (i := 0) rfl hlength []
      rwa [List.append_nil, List.nil_append] at hvector
    have hrest : sliceFrom (vector16 names) 2 = .ok names := sliceFrom_append rfl names
    rw [serverName, if_neg (by rw [length_vector16]; omega), htwo, ok_bind, hrest, ok_bind,
      if_neg (not_not.mpr rfl)]
    exact (loop_serverNameEntry_iff (Nat.lt_succ_self _) host).mpr hnames

end Names

section Extensions

variable {data : Bytes}

theorem extension_eq (high low : UInt8) {body : Bytes} (hbody : body.length < 65536) (rest : Bytes) :
    extension (high :: low :: vector16 body ++ rest) =
      ((if 256 * high.toNat + low.toNat = 0 then serverName body else .ok none) >>= fun name =>
        .ok (name.elim (.inr rest) .inl)) := by
  have hsplit : high :: low :: vector16 body ++ rest =
      high :: low :: putUint16 (UInt16.ofNat body.length) ++ (body ++ rest) := by
    rw [vector16, List.cons_append, List.cons_append, List.append_assoc]
    rfl
  have hne : high :: low :: vector16 body ++ rest ≠ [] := List.cons_ne_nil _ _
  have hlength : ¬(high :: low :: vector16 body ++ rest).length < 4 := by
    rw [List.length_append, List.length_cons, List.length_cons, length_vector16]
    omega
  have htype : twoBytesAt (high :: low :: vector16 body ++ rest) 0 =
      .ok (256 * high.toNat + low.toNat) := twoBytesAt_eq [] rfl high low _
  have htwo : twoBytesAt (high :: low :: vector16 body ++ rest) 2 = .ok body.length :=
    twoBytesAt_vector16 [high, low] rfl hbody rest
  have hrest : sliceFrom (high :: low :: vector16 body ++ rest) 4 = .ok (body ++ rest) := by
    rw [hsplit]
    exact sliceFrom_append rfl _
  rw [extension, if_neg hne, if_neg hlength, htype, ok_bind, htwo, ok_bind, hrest, ok_bind,
    if_neg (by rw [List.length_append]; omega), extensionName, slice_append rfl, ok_bind,
    sliceFrom_append rfl]
  refine congrArg (_ >>= ·) (funext fun name => ?_)
  cases name with
  | some name => rfl
  | none => rfl

theorem exists_of_extension {next : Bytes ⊕ Bytes} (h : extension data = .ok next) :
    ∃ high low body rest, body.length < 65536 ∧ data = high :: low :: vector16 body ++ rest := by
  obtain ⟨-, h⟩ := ite_error_eq_ok.mp h
  obtain ⟨hfour, h⟩ := ite_error_eq_ok.mp h
  obtain _ | ⟨high, _ | ⟨low, data⟩⟩ := data
  · exact absurd (by simp) hfour
  · exact absurd (by simp) hfour
  obtain ⟨type, -, h⟩ := bind_eq_ok.mp h
  obtain ⟨length, hlen, h⟩ := bind_eq_ok.mp h
  obtain ⟨data', hdata', h⟩ := bind_eq_ok.mp h
  obtain ⟨hle, -⟩ := ite_error_eq_ok.mp h
  have hlength := (safe_sliceFrom (by omega) (by omega)).2 _ hdata'
  have htwo := (twoBytesAt_drop [high, low] rfl data).symm.trans hlen
  rw [List.length_cons, List.length_cons] at hlength
  obtain ⟨body, rest, -, hbody, rfl⟩ := exists_vector16 htwo (by omega)
  exact ⟨high, low, body, rest, hbody, rfl⟩

theorem loop_extension_iff {fuel : Nat} (hfuel : data.length < fuel) (name : Bytes) :
    loop .panicked extension fuel data = .ok name ↔ Extensions data name := by
  induction fuel generalizing data with
  | zero => exact absurd hfuel (Nat.not_lt_zero _)
  | succ fuel ih =>
      have hzero : 256 * (0 : UInt8).toNat + (0 : UInt8).toNat = 0 := rfl
      constructor
      · intro h
        obtain ⟨high, low, body, rest, hbody, rfl⟩ := exists_of_loop h exists_of_extension
        have hrest : rest.length < fuel := by
          rw [List.length_append, List.length_cons] at hfuel
          omega
        rw [loop, extension_eq high low hbody] at h
        by_cases htype : 256 * high.toNat + low.toNat = 0
        · have hhigh : high = 0 := UInt8.toNat_inj.mp (by rw [UInt8.toNat_zero]; omega)
          have hlow : low = 0 := UInt8.toNat_inj.mp (by rw [UInt8.toNat_zero]; omega)
          rw [if_pos htype] at h
          rw [hhigh, hlow]
          cases hserver : serverName body with
          | error err =>
              rw [hserver] at h
              cases h
          | ok host =>
              rw [hserver, ok_bind] at h
              obtain ⟨names, -, rfl, hnames⟩ := (serverName_iff host).mp hserver
              rw [length_vector16] at hbody
              cases host with
              | some host =>
                  obtain rfl : host = name := Except.ok.inj h
                  exact .named names rest host hbody hnames
              | none => exact .nameless names rest name hbody hnames ((ih hrest).mp h)
        · rw [if_neg htype] at h
          exact .other high low body rest name htype hbody ((ih hrest).mp h)
      · intro h
        rw [loop]
        cases h with
        | named names rest name hlength hnames =>
            have hserver := (serverName_iff (some name)).mpr ⟨names, by omega, rfl, hnames⟩
            rw [extension_eq 0 0 (by rwa [length_vector16]), if_pos hzero, hserver, ok_bind]
            rfl
        | nameless names rest name hlength hnames hrest =>
            have hserver := (serverName_iff none).mpr ⟨names, by omega, rfl, hnames⟩
            rw [extension_eq 0 0 (by rwa [length_vector16]), if_pos hzero, hserver, ok_bind]
            refine (ih ?_).mpr hrest
            rw [List.length_append, List.length_cons] at hfuel
            omega
        | other high low body rest name htype hlength hrest =>
            rw [extension_eq high low hlength, if_neg htype, ok_bind]
            refine (ih ?_).mpr hrest
            rw [List.length_append, List.length_cons] at hfuel
            omega

end Extensions

section Hello

variable {data : Bytes}

theorem length_vector8 {body : Bytes} : (vector8 body).length = body.length + 1 := rfl

theorem toNat_length {n : Nat} (hn : n < 256) : (UInt8.ofNat n).toNat = n := by
  rw [UInt8.toNat_ofNat', Nat.mod_eq_of_lt hn]

theorem readClientHello_eq (hello : ClientHello) : readClientHello hello.bytes =
    loop .panicked extension (hello.extensions.length + 1) hello.extensions := by
  have hheader := hello.header_length
  have hsession := hello.sessionID_length
  have hcipher := hello.cipherSuites_length
  have heven := hello.cipherSuites_even
  have hextensions := hello.extensions_length
  have hsessionLen := toNat_length (n := hello.sessionID.length) (by omega)
  have hcompressionLen := toNat_length hello.compressionMethods_length
  rw [ClientHello.bytes]
  generalize hello.header = header at *
  generalize hello.sessionID = sessionID at *
  generalize hello.cipherSuites = cipherSuites at *
  generalize hello.compressionMethods = compressionMethods at *
  generalize hello.extensions = extensions at *
  -- the message from each list on
  obtain ⟨d₃, hd₃⟩ : ∃ d, d = vector8 compressionMethods ++ vector16 extensions := ⟨_, rfl⟩
  obtain ⟨d₂, hd₂⟩ : ∃ d, d = vector16 cipherSuites ++ d₃ := ⟨_, rfl⟩
  obtain ⟨d₁, hd₁⟩ : ∃ d, d = header ++ vector8 sessionID ++ d₂ := ⟨_, rfl⟩
  have hbytes : header ++ vector8 sessionID ++ vector16 cipherSuites ++ vector8 compressionMethods ++
      vector16 extensions = d₁ := by
    rw [hd₁, hd₂, hd₃, List.append_assoc, List.append_assoc]
  have hlen₃ : d₃.length = compressionMethods.length + extensions.length + 3 := by
    rw [hd₃, List.length_append, length_vector8, length_vector16]
    omega
  have hlen₂ : d₂.length = cipherSuites.length + 2 + d₃.length := by
    rw [hd₂, List.length_append, length_vector16]
  have hlen₁ : d₁.length = 39 + sessionID.length + d₂.length := by
    rw [hd₁, List.length_append, List.length_append, length_vector8, hheader]
    omega
  have hsessionID : byteAt d₁ 38 = .ok (UInt8.ofNat sessionID.length) := by
    rw [hd₁, List.append_assoc]
    exact byteAt_append header (by rw [hheader]; rfl) _ _
  have hcut₁ : sliceFrom d₁ (39 + sessionID.length) = .ok d₂ := by
    rw [hd₁]
    refine sliceFrom_append ?_ _
    rw [List.length_append, length_vector8]
    omega
  have htwo₂ : twoBytesAt d₂ 0 = .ok cipherSuites.length := by
    rw [hd₂]
    exact twoBytesAt_vector16 [] rfl hcipher _
  have hcut₂ : sliceFrom d₂ (2 + cipherSuites.length) = .ok d₃ := by
    rw [hd₂]
    refine sliceFrom_append ?_ _
    rw [length_vector16]
    omega
  have hone₃ : byteAt d₃ 0 = .ok (UInt8.ofNat compressionMethods.length) := by
    rw [hd₃]
    exact byteAt_append [] rfl _ _
  have hcut₃ : sliceFrom d₃ (1 + compressionMethods.length) = .ok (vector16 extensions) := by
    rw [hd₃]
    refine sliceFrom_append ?_ _
    rw [length_vector8]
    omega
  have htwo₄ : twoBytesAt (vector16 extensions) 0 = .ok extensions.length := by
    have htwo := twoBytesAt_vector16 [] (i := 0) rfl hextensions []
    rwa [List.append_nil, List.nil_append] at htwo
  have hcut₄ : sliceFrom (vector16 extensions) 2 = .ok extensions := sliceFrom_append rfl extensions
  rw [hbytes, readClientHello, if_neg (by omega), hsessionID, ok_bind, hsessionLen, if_neg (by omega),
    hcut₁, ok_bind, if_neg (by omega), htwo₂, ok_bind, if_neg (by omega), hcut₂, ok_bind,
    if_neg (by omega), hone₃, ok_bind, hcompressionLen, if_neg (by omega), hcut₃, ok_bind,
    if_neg (by rw [length_vector16]; omega), htwo₄, ok_bind, hcut₄, ok_bind, if_neg (not_not.mpr rfl)]

theorem exists_of_readClientHello {name : Bytes} (h : readClientHello data = .ok name) :
    ∃ hello : ClientHello, data = hello.bytes := by
  obtain ⟨hlength, h⟩ := ite_error_eq_ok.mp h
  obtain ⟨sessionIDLen, hsessionID, h⟩ := bind_eq_ok.mp h
  obtain ⟨hsession, h⟩ := ite_error_eq_ok.mp h
  obtain ⟨d₂, hcut₁, h⟩ := bind_eq_ok.mp h
  obtain ⟨htwo, h⟩ := ite_error_eq_ok.mp h
  obtain ⟨cipherSuiteLen, hcipher, h⟩ := bind_eq_ok.mp h
  obtain ⟨heven, h⟩ := ite_error_eq_ok.mp h
  obtain ⟨d₃, hcut₂, h⟩ := bind_eq_ok.mp h
  obtain ⟨hone, h⟩ := ite_error_eq_ok.mp h
  obtain ⟨compressionMethodsLen, hcompression, h⟩ := bind_eq_ok.mp h
  obtain ⟨hmethods, h⟩ := ite_error_eq_ok.mp h
  obtain ⟨d₄, hcut₃, h⟩ := bind_eq_ok.mp h
  obtain ⟨htwo', h⟩ := ite_error_eq_ok.mp h
  obtain ⟨extensionsLength, hextensions, h⟩ := bind_eq_ok.mp h
  obtain ⟨extensions', hcut₄, h⟩ := bind_eq_ok.mp h
  obtain ⟨hall, -⟩ := ite_error_eq_ok.mp h
  have hlen₄ := (safe_sliceFrom (by omega) (by omega)).2 _ hcut₄
  obtain ⟨extensions, rest, hextlen, hextlt, rfl⟩ := exists_vector16 hextensions (by omega)
  obtain ⟨compressionMethods, rest₃, hmethodslen, rfl⟩ := exists_vector8 hcompression (by omega)
  obtain ⟨cipherSuites, rest₂, hcipherlen, hcipherlt, rfl⟩ := exists_vector16 hcipher (by omega)
  obtain ⟨header, tail, hheader, rfl⟩ : ∃ header tail : Bytes, header.length = 38 ∧ data = header ++ tail :=
    ⟨data.take 38, data.drop 38, by rw [List.length_take]; omega, (List.take_append_drop 38 data).symm⟩
  have htail : byteAt tail 0 = .ok sessionIDLen := by
    obtain _ | ⟨x, tail⟩ := tail
    · rw [List.append_nil] at hlength
      omega
    · have hx := byteAt_append header (i := 38) (by rw [hheader]; rfl) x tail
      rw [hsessionID] at hx
      rw [Except.ok.inj hx]
      exact byteAt_append [] rfl x tail
  rw [List.length_append] at hlength hsession
  obtain ⟨sessionID, rest₁, hsessionlen, rfl⟩ := exists_vector8 htail (by omega)
  have hnil : rest = [] := by
    rw [List.length_append, length_vector16] at hlen₄
    exact List.eq_nil_of_length_eq_zero (by omega)
  have hrest₃ := sliceFrom_append (n := 1 + (compressionMethodsLen.toNat : Int))
    (by rw [length_vector8]; omega) rest₃ |>.symm.trans hcut₃
  have hrest₂ := sliceFrom_append (n := 2 + (cipherSuiteLen : Int))
    (by rw [length_vector16]; omega) rest₂ |>.symm.trans hcut₂
  have hlen₁ : 39 + (sessionIDLen.toNat : Int) = (header ++ vector8 sessionID).length := by
    rw [List.length_append, length_vector8]
    omega
  have hrest₁ := sliceFrom_append hlen₁ rest₁
  rw [List.append_assoc, hcut₁] at hrest₁
  have hmethodslt := compressionMethodsLen.toNat_lt
  refine ⟨⟨header, sessionID, cipherSuites, compressionMethods, extensions, hheader, by omega, hcipherlt,
    by omega, by omega, hextlt⟩, ?_⟩
  change header ++ (vector8 sessionID ++ rest₁) = header ++ vector8 sessionID ++ vector16 cipherSuites ++
    vector8 compressionMethods ++ vector16 extensions
  rw [← Except.ok.inj hrest₁, Except.ok.inj hrest₂, Except.ok.inj hrest₃, hnil]
  simp only [List.append_assoc, List.append_nil]

theorem readClientHello_iff (data name : Bytes) : readClientHello data = .ok name ↔
    ∃ hello : ClientHello, data = hello.bytes ∧ Extensions hello.extensions name := by
  constructor
  · intro h
    obtain ⟨hello, rfl⟩ := exists_of_readClientHello h
    rw [readClientHello_eq] at h
    exact ⟨hello, rfl, (loop_extension_iff (Nat.lt_succ_self _) name).mp h⟩
  · rintro ⟨hello, rfl, hextensions⟩
    rw [readClientHello_eq]
    exact (loop_extension_iff (Nat.lt_succ_self _) name).mpr hextensions

theorem vector8_inj {body body' rest rest' : Bytes} (hbody : body.length < 256) (hbody' : body'.length < 256)
    (h : vector8 body ++ rest = vector8 body' ++ rest') : body = body' ∧ rest = rest' := by
  obtain ⟨hlength, h⟩ := List.cons.inj h
  have hsame := congrArg UInt8.toNat hlength
  rw [toNat_length hbody, toNat_length hbody'] at hsame
  exact List.append_inj h hsame

theorem vector16_inj {body body' rest rest' : Bytes} (hbody : body.length < 65536)
    (hbody' : body'.length < 65536) (h : vector16 body ++ rest = vector16 body' ++ rest') :
    body = body' ∧ rest = rest' := by
  have htwo : ∀ {body : Bytes}, body.length < 65536 → ∀ rest : Bytes,
      twoBytesAt (vector16 body ++ rest) 0 = .ok body.length :=
    fun hlt rest => twoBytesAt_vector16 [] rfl hlt rest
  have hsame : body.length = body'.length :=
    Except.ok.inj ((htwo hbody rest).symm.trans ((congrArg (twoBytesAt · 0) h).trans (htwo hbody' rest')))
  rw [vector16, vector16, hsame, List.append_assoc, List.append_assoc] at h
  exact List.append_inj (List.append_cancel_left h) hsame

/-- No client hello is the beginning of another one. -/
theorem ClientHello.eq_nil_of_append {hello hello' : ClientHello} {rest : Bytes}
    (h : hello.bytes ++ rest = hello'.bytes) : rest = [] := by
  have hsession := hello.sessionID_length
  have hsession' := hello'.sessionID_length
  rw [← List.append_nil hello'.bytes] at h
  simp only [ClientHello.bytes, List.append_assoc] at h
  obtain ⟨-, h⟩ := List.append_inj h (hello.header_length.trans hello'.header_length.symm)
  obtain ⟨-, h⟩ := vector8_inj (by omega) (by omega) h
  obtain ⟨-, h⟩ := vector16_inj hello.cipherSuites_length hello'.cipherSuites_length h
  obtain ⟨-, h⟩ := vector8_inj hello.compressionMethods_length hello'.compressionMethods_length h
  exact (vector16_inj hello.extensions_length hello'.extensions_length h).2

theorem readClientHello_take {name found : Bytes} (h : readClientHello data = .ok name) {n : Nat}
    (hn : n < data.length) : readClientHello (data.take n) ≠ .ok found := by
  intro hfound
  obtain ⟨hello, hdata⟩ := exists_of_readClientHello h
  obtain ⟨hello', htake⟩ := exists_of_readClientHello hfound
  have hrest := ClientHello.eq_nil_of_append
    (htake ▸ hdata ▸ List.take_append_drop n data : hello'.bytes ++ data.drop n = hello.bytes)
  rw [List.drop_eq_nil_iff] at hrest
  omega

theorem safe_sniffTLS (b : Bytes) : Safe (sniffTLS b) fun _ => True := by
  refine .ite (fun _ => .error nofun) fun hfive => ?_
  refine (safe_byteAt le_rfl (by omega)).bind fun type _ => .ite (fun _ => .error nofun) fun _ => ?_
  refine (safe_byteAt (by omega) (by omega)).bind fun major _ => .ite (fun _ => .error nofun) fun _ => ?_
  refine (safe_twoBytesAt (by omega) (by omega)).bind fun headerLen _ => ?_
  refine .ite (fun _ => .error nofun) fun _ => ?_
  exact (safe_slice (by omega) (by omega) (by omega)).bind fun data _ => safe_readClientHello data

theorem sniffTLS_eq (minor : UInt8) {data : Bytes} (hdata : data.length < 65536) (rest : Bytes) :
    sniffTLS (0x16 :: 3 :: minor :: vector16 data ++ rest) = readClientHello data := by
  have hsplit : 0x16 :: 3 :: minor :: vector16 data ++ rest =
      0x16 :: 3 :: minor :: putUint16 (UInt16.ofNat data.length) ++ data ++ rest := rfl
  have hlength : (0x16 :: 3 :: minor :: vector16 data ++ rest).length = 5 + data.length + rest.length := by
    simp only [List.length_append, List.length_cons, length_vector16]
    omega
  have htype : byteAt (0x16 :: 3 :: minor :: vector16 data ++ rest) 0 = .ok 0x16 :=
    byteAt_append [] rfl _ _
  have hmajor : byteAt (0x16 :: 3 :: minor :: vector16 data ++ rest) 1 = .ok 3 :=
    byteAt_append [0x16] rfl _ _
  have hheaderLen : twoBytesAt (0x16 :: 3 :: minor :: vector16 data ++ rest) 3 = .ok data.length :=
    twoBytesAt_vector16 [0x16, 3, minor] rfl hdata rest
  have hslice : slice (0x16 :: 3 :: minor :: vector16 data ++ rest) 5 (5 + data.length) = .ok data := by
    have hfront : (0x16 :: 3 :: minor :: putUint16 (UInt16.ofNat data.length) ++ data).length =
        (5 + (data.length : Int)).toNat := by
      rw [List.length_append, show (5 + (data.length : Int)).toNat = 5 + data.length by omega]
      rfl
    rw [slice, if_pos (by omega), hsplit, ← hfront, List.take_left]
    rfl
  rw [sniffTLS, if_neg (by omega), htype, ok_bind, if_neg (not_not.mpr rfl), hmajor, ok_bind,
    if_neg (by decide), hheaderLen, ok_bind, if_neg (by omega), hslice, ok_bind]

theorem exists_of_sniffTLS {b name : Bytes} (h : sniffTLS b = .ok name) :
    ∃ minor data rest, data.length < 65536 ∧ b = 0x16 :: 3 :: minor :: vector16 data ++ rest := by
  obtain ⟨hfive, h⟩ := ite_error_eq_ok.mp h
  obtain ⟨type, htype, h⟩ := bind_eq_ok.mp h
  obtain ⟨hhandshake, h⟩ := ite_error_eq_ok.mp h
  obtain ⟨major, hmajor, h⟩ := bind_eq_ok.mp h
  obtain ⟨hversion, h⟩ := ite_error_eq_ok.mp h
  obtain ⟨headerLen, hheaderLen, h⟩ := bind_eq_ok.mp h
  obtain ⟨hcomplete, -⟩ := ite_error_eq_ok.mp h
  match b with
  | [] | [_] | [_, _] => exact absurd (by simp) hfive
  | x :: y :: minor :: b =>
      obtain rfl := Except.ok.inj ((byteAt_append [] (i := 0) rfl x _).symm.trans htype)
      obtain rfl := Except.ok.inj ((byteAt_append [x] (i := 1) rfl y _).symm.trans hmajor)
      have htwo := (twoBytesAt_drop [x, y, minor] rfl b).symm.trans hheaderLen
      simp only [List.length_cons] at hcomplete
      obtain ⟨data, rest, -, hdata, rfl⟩ := exists_vector16 htwo (by omega)
      obtain rfl : y = 3 := by simpa [isValidTLSVersion] using hversion
      obtain rfl : x = 0x16 := not_not.mp hhandshake
      exact ⟨minor, data, rest, hdata, rfl⟩

/-- **What the sniffer for TLS accepts.** Neither function panics. `ReadClientHello` succeeds exactly on
the messages of the grammar, and `SniffTLS` exactly on a first record that is complete and such a message,
each with the first name of a host. -/
theorem readClientHello_accepts (b name : Bytes) :
    readClientHello b ≠ .error .panicked ∧ sniffTLS b ≠ .error .panicked ∧
      (readClientHello b = .ok name ↔
        ∃ hello : ClientHello, b = hello.bytes ∧ Extensions hello.extensions name) ∧
      (sniffTLS b = .ok name ↔
        ∃ (minor : UInt8) (hello : ClientHello) (rest : Bytes), hello.bytes.length < 65536 ∧
          b = 0x16 :: 3 :: minor :: vector16 hello.bytes ++ rest ∧ Extensions hello.extensions name) := by
  refine ⟨(safe_readClientHello b).1, (safe_sniffTLS b).1, readClientHello_iff b name, ?_, ?_⟩
  · intro h
    obtain ⟨minor, data, rest, hdata, rfl⟩ := exists_of_sniffTLS h
    rw [sniffTLS_eq minor hdata] at h
    obtain ⟨hello, rfl, hextensions⟩ := (readClientHello_iff data name).mp h
    exact ⟨minor, hello, rest, hdata, rfl, hextensions⟩
  · rintro ⟨minor, hello, rest, hlength, rfl, hextensions⟩
    rw [sniffTLS_eq minor hlength]
    exact (readClientHello_iff _ name).mpr ⟨hello, rfl, hextensions⟩

end Hello

end V2RootCore.Tls
