import V2RootCore.Socks.Server
import V2RootCore.Proof.Go.Talk

/-!
# Who is served when passwords are asked for

A client that is served has shown an account, over SOCKS 5 or over HTTP. This needs that there are
accounts: without any the HTTP server lets everyone pass.
-/

namespace V2RootCore.Http

open Go Net

/-- The user and password are in the map. -/
def Known (accounts : Option (Map Bytes)) (username password : Bytes) : Prop :=
  ∃ known, accounts = some known ∧ known.lookup username = some password

variable {accounts : Option (Map Bytes)} {username password : Bytes}

theorem known_of_hasAccount (h : hasAccount accounts username password = true) :
    Known accounts username password := by
  cases accounts with
  | none => cases h
  | some known =>
      rw [hasAccount] at h
      split at h
      · cases h
      · rename_i stored hstored
        rw [of_decide_eq_true h] at hstored
        exact ⟨known, rfl, hstored⟩

theorem accountsLen_pos_of_known (h : Known accounts username password) :
    0 < accountsLen accounts := by
  obtain ⟨known, rfl, hlookup⟩ := h
  cases known with
  | nil => cases hlookup
  | cons entry known => exact Nat.succ_pos _

/-- The stream begins with a request that shows a user and password of the map. -/
def Credentials (packages : Packages) (accounts : Option (Map Bytes)) (stream : Bytes) : Prop :=
  ∃ request rest username password, packages.readRequest stream = .ok (request, rest) ∧
    parseBasicAuth (request.get (ascii "Proxy-Authorization")) = some (username, password) ∧
    Known accounts username password

/-- The request is handed to the dispatcher. -/
def Route.Accepted : Route → Prop
  | .connect _ => True
  | .plain _ _ _ => True
  | _ => False

variable {packages : Packages} {config : ServerConfig} {dispatch : Destination → Option Error}
  {rounds : List Round} {conn : Conn}

theorem credentials_of_accepted {input : Bytes} (haccounts : 0 < accountsLen config.accounts)
    (h : (routeOf packages config input).Accepted) : Credentials packages config.accounts input := by
  rw [routeOf] at h
  split at h
  · exact h.elim
  · rename_i request rest hread
    split_ifs at h with hrefused
    · exact h.elim
    have hauthorized : config.authorized request = true := by
      by_contra hno
      exact hrefused ⟨haccounts, hno⟩
    rw [ServerConfig.authorized] at hauthorized
    split at hauthorized
    · cases hauthorized
    · rename_i user pass hparse
      exact ⟨request, rest, user, pass, hread, hparse, known_of_hasAccount hauthorized⟩

theorem suffix_of_routeOf {input rest : Bytes} {dest : Destination} {keepAlive : Bool}
    (h : routeOf packages config input = .plain dest keepAlive rest) : rest <:+ input := by
  rw [routeOf] at h
  split at h
  · cases h
  · rename_i request left hread
    split_ifs at h
    split at h
    · cases h
    · rw [Request.handler] at h
      split_ifs at h
      cases h
      exact packages.suffix_of_readRequest hread

theorem stream_of_handleConnect {dest : Destination} {action : Action}
    (haction : action ∈ (handleConnect dispatch dest conn).1) : action.stream = conn.input := by
  rw [handleConnect] at haction
  split at haction
  · cases haction
  · rw [dispatchLink, List.mem_singleton] at haction
    rw [haction]
    rfl

theorem mem_finishPlain {action first : Action} {keepAlive : Bool} {result : Except Error Bool}
    {again : Served} (h : action ∈ (finishPlain first keepAlive result again).1) :
    action = first ∨ action ∈ again.1 := by
  cases result with
  | error err => exact .inl (List.mem_singleton.mp h)
  | ok another =>
      rw [finishPlain] at h
      split_ifs at h
      · exact List.mem_cons.mp h
      · exact .inl (List.mem_singleton.mp h)

theorem action_cases {action : Action}
    (haction : action ∈ (processWithFirstbyte packages config dispatch rounds conn).1) :
    action.stream = conn.input ∧ (routeOf packages config conn.input).Accepted ∨
      ∃ round rest rounds' dest keepAlive rest', rounds = round :: rounds' ∧
        routeOf packages config conn.input = .plain dest keepAlive rest ∧ rest' <:+ rest ∧
        action ∈ (processWithFirstbyte packages config dispatch rounds' { conn with input := rest' }).1 := by
  rw [processWithFirstbyte.eq_def] at haction
  split at haction
  · cases haction
  · cases haction
  · cases haction
  · rename_i dest hroute
    exact .inl ⟨stream_of_handleConnect haction, by rw [hroute]; trivial⟩
  · rename_i dest keepAlive rest hroute
    have hplain : (routeOf packages config conn.input).Accepted := by
      rw [hroute]
      trivial
    dsimp only at haction
    split at haction
    · rw [List.mem_singleton.mp haction]
      exact .inl ⟨rfl, hplain⟩
    · split at haction
      · obtain rfl | hagain := mem_finishPlain haction
        · exact .inl ⟨rfl, hplain⟩
        · cases hagain
      · rename_i round rounds'
        obtain rfl | hagain := mem_finishPlain haction
        · exact .inl ⟨rfl, hplain⟩
        · exact .inr ⟨round, rest, rounds', dest, keepAlive, _, rfl, hroute, List.drop_suffix _ _, hagain⟩

theorem accepted_of_action {action : Action}
    (haction : action ∈ (processWithFirstbyte packages config dispatch rounds conn).1) :
    action.stream <:+ conn.input ∧ (routeOf packages config action.stream).Accepted := by
  induction rounds generalizing conn with
  | nil =>
      obtain ⟨hstream, haccepted⟩ | ⟨round, -, rounds', -, -, -, hrounds, -⟩ := action_cases haction
      · rw [hstream]
        exact ⟨List.suffix_rfl, haccepted⟩
      · cases hrounds
  | cons round rounds ih =>
      obtain ⟨hstream, haccepted⟩ | ⟨_, rest, _, dest, keepAlive, rest', hrounds, hroute, hrest, hagain⟩ :=
        action_cases haction
      · rw [hstream]
        exact ⟨List.suffix_rfl, haccepted⟩
      · cases hrounds
        obtain ⟨hsuffix, haccepted⟩ := ih hagain
        exact ⟨hsuffix.trans (hrest.trans (suffix_of_routeOf hroute)), haccepted⟩

/-- The first request is one that a server without accounts hands to the dispatcher: it has a proper host, and it is
a `CONNECT` whose answer can be written, or names its host in the URL. -/
def Serves (packages : Packages) (conn : Conn) : Prop :=
  ∃ request rest dest, packages.readRequest conn.input = .ok (request, rest) ∧ request.destination = .ok dest ∧
    if equalFold request.method (ascii "CONNECT") then conn.outcome conn.written.length = none
    else request.urlHost ≠ []

theorem finishPlain_ne_nil (first : Action) (keepAlive : Bool) (result : Except Error Bool)
    (again : Served) : (finishPlain first keepAlive result again).1 ≠ [] := by
  cases result with
  | error err => exact List.cons_ne_nil _ _
  | ok another =>
      rw [finishPlain]
      split_ifs <;> exact List.cons_ne_nil _ _

theorem handleConnect_ne_nil_iff (dest : Destination) :
    (handleConnect dispatch dest conn).1 ≠ [] ↔ conn.outcome conn.written.length = none := by
  have hrun (data : Bytes) : ((Talk.write data).run conn).1 =
      (conn.outcome conn.written.length).elim (.ok ()) .error := rfl
  rw [handleConnect, hrun]
  cases conn.outcome conn.written.length with
  | none => exact iff_of_true (List.cons_ne_nil _ _) rfl
  | some err => exact iff_of_false (fun h => h rfl) nofun

theorem serves_iff (hempty : accountsLen config.accounts = 0) (htransparent : config.allowTransparent = false) :
    Serves packages conn ↔ match routeOf packages config conn.input with
      | .connect _ => conn.outcome conn.written.length = none
      | .plain _ _ _ => True
      | _ => False := by
  rw [Serves, routeOf]
  cases hread : packages.readRequest conn.input with
  | error err => simp
  | ok read =>
      obtain ⟨request, rest⟩ := read
      simp only [hempty, lt_irrefl, false_and, if_false, Except.ok.injEq, Prod.mk.injEq, and_assoc,
        exists_and_left, exists_eq_left']
      cases request.destination with
      | error err => simp
      | ok dest =>
          by_cases hconnect : equalFold request.method (ascii "CONNECT") <;>
            by_cases hurl : request.urlHost = [] <;> simp [Request.handler, hconnect, htransparent, hurl]

theorem processWithFirstbyte_ne_nil_iff (hempty : accountsLen config.accounts = 0)
    (htransparent : config.allowTransparent = false) :
    (processWithFirstbyte packages config dispatch rounds conn).1 ≠ [] ↔ Serves packages conn := by
  rw [processWithFirstbyte.eq_def, serves_iff hempty htransparent]
  cases routeOf packages config conn.input with
  | fail err => exact iff_of_false (fun h => h rfl) id
  | unauthorized => exact iff_of_false (fun h => h rfl) id
  | malformed => exact iff_of_false (fun h => h rfl) id
  | connect dest => exact handleConnect_ne_nil_iff dest
  | plain dest keepAlive rest =>
      refine iff_of_true ?_ trivial
      dsimp only
      split
      · exact List.cons_ne_nil _ _
      · split
        · exact finishPlain_ne_nil _ _ _ _
        · exact finishPlain_ne_nil _ _ _ _

/-- A `CONNECT` request for a host without more headers than it needs. -/
def connectText : Bytes :=
  ascii "CONNECT example.com:80 HTTP/1.1" ++ [13, 10] ++ ascii "Host: example.com:80" ++ [13, 10, 13, 10]

def Packages.connectOnly : Packages where
  readRequest input :=
    if input = connectText then
      .ok ({ method := ascii "CONNECT", host := ascii "example.com:80",
             urlHost := ascii "example.com:80" }, [])
    else .error .unexpectedEOF
  suffix_of_readRequest := by
    intro input rest request h
    split_ifs at h
    cases h
    exact List.nil_suffix

end V2RootCore.Http

namespace V2RootCore.Socks

open Go Net Http

/-- The stream begins with the greeting of SOCKS 5 and a user name and password of the map. -/
def Socks5Credentials (accounts : Option (Map Bytes)) (stream : Bytes) : Prop :=
  ∃ nMethod methods version username password rest,
    stream = [socks5Version, nMethod] ++ methods ++ [version, UInt8.ofNat username.length] ++ username ++
      [UInt8.ofNat password.length] ++ password ++ rest ∧
    methods.length = nMethod.toNat ∧ username.length ≤ 255 ∧ password.length ≤ 255 ∧
    Known accounts username password

variable {conn conn' : Conn}

theorem readUsernamePassword_eq_ok
    (h : readUsernamePassword.run conn = (.ok (username, password), conn')) :
    username.length ≤ 255 ∧ password.length ≤ 255 ∧ ∃ version,
      conn.input = [version, UInt8.ofNat username.length] ++ username ++
        [UInt8.ofNat password.length] ++ password ++ conn'.input := by
  obtain ⟨start, conn₁, hstart, h⟩ := Talk.run_bind_eq_ok.mp h
  obtain ⟨name, conn₂, hname, h⟩ := Talk.run_bind_eq_ok.mp h
  obtain ⟨nPassword, conn₃, hsize, h⟩ := Talk.run_bind_eq_ok.mp h
  obtain ⟨word, conn₄, hword, h⟩ := Talk.run_bind_eq_ok.mp h
  obtain ⟨hresult, rfl⟩ := Talk.run_pure_eq_ok.mp h
  obtain ⟨rfl, rfl⟩ := Prod.mk.inj hresult
  rw [Talk.run_read_eq_ok] at hstart hname hsize hword
  have hnameSize : UInt8.ofNat name.toList.length = start.toList.getD 1 0 := by
    rw [List.Vector.toList_length, UInt8.ofNat_toNat]
  have hwordSize : UInt8.ofNat word.toList.length = nPassword.head := by
    rw [List.Vector.toList_length, UInt8.ofNat_toNat]
  refine ⟨?_, ?_, start.toList.getD 0 0, ?_⟩
  · rw [List.Vector.toList_length]
    exact Nat.le_of_lt_succ (UInt8.toNat_lt _)
  · rw [List.Vector.toList_length]
    exact Nat.le_of_lt_succ (UInt8.toNat_lt _)
  · rw [hnameSize, hwordSize, ← exists_of_vector_two, ← exists_of_vector_one, hstart.1, hname.1, hsize.1,
      hword.1]
    simp only [List.append_assoc]

variable {session : ServerSession}

theorem checkAccount_eq_ok {result : Bytes}
    (h : session.checkAccount.run conn = (.ok result, conn')) :
    result.length ≤ 255 ∧ ∃ version password, password.length ≤ 255 ∧
      conn.input = [version, UInt8.ofNat result.length] ++ result ++
        [UInt8.ofNat password.length] ++ password ++ conn'.input ∧
      Known session.config.accounts result password := by
  obtain ⟨⟨username, password⟩, conn₁, hread, h⟩ := Talk.run_bind_eq_ok.mp h
  rw [Talk.run_orFail_eq_ok] at hread
  obtain ⟨husername, hpassword, version, hinput⟩ := readUsernamePassword_eq_ok hread
  dsimp only at h
  split_ifs at h with haccount
  · obtain ⟨_, conn₂, hwrite, h⟩ := Talk.run_bind_eq_ok.mp h
    rw [Talk.run_orFail_eq_ok, Talk.run_write_eq_ok] at hwrite
    obtain ⟨rfl, rfl⟩ := Talk.run_pure_eq_ok.mp h
    have hconn₂ : conn₂.input = conn₁.input := by rw [hwrite.2]
    refine ⟨husername, version, password, hpassword, ?_, known_of_hasAccount haccount⟩
    rw [hinput, hconn₂]
  · obtain ⟨-, conn₂, -, h⟩ := Talk.run_bind_eq_ok.mp h
    exact absurd h Talk.run_fail_ne_ok

theorem auth5_eq_ok (hauth : session.config.authType = .password) {nMethod : UInt8} {result : Bytes}
    (h : (session.auth5 nMethod).run conn = (.ok result, conn')) :
    result.length ≤ 255 ∧ ∃ methods version password, password.length ≤ 255 ∧
      methods.length = nMethod.toNat ∧
      conn.input = methods ++ [version, UInt8.ofNat result.length] ++ result ++
        [UInt8.ofNat password.length] ++ password ++ conn'.input ∧
      Known session.config.accounts result password := by
  obtain ⟨methods, conn₁, hmethods, h⟩ := Talk.run_bind_eq_ok.mp h
  rw [Talk.run_orFail_eq_ok, Talk.run_read_eq_ok] at hmethods
  rw [if_pos hauth] at h
  dsimp only at h
  by_cases hmatch : hasAuthMethod authPassword methods.toList = true
  · rw [if_pos hmatch] at h
    obtain ⟨_, conn₂, hwrite, h⟩ := Talk.run_bind_eq_ok.mp h
    rw [Talk.run_orFail_eq_ok, Talk.run_write_eq_ok] at hwrite
    rw [if_pos rfl] at h
    obtain ⟨husername, version, password, hpassword, hinput, hknown⟩ := checkAccount_eq_ok h
    refine ⟨husername, methods.toList, version, password, hpassword, methods.toList_length, ?_, hknown⟩
    have hconn₂ : conn₂.input = conn₁.input := by rw [hwrite.2]
    rw [hmethods.1, ← hconn₂, hinput]
    simp only [List.append_assoc]
  · rw [if_neg hmatch] at h
    obtain ⟨-, conn₂, -, h⟩ := Talk.run_bind_eq_ok.mp h
    exact absurd h Talk.run_fail_ne_ok

theorem handshake_credentials (hauth : session.config.authType = .password) {request : RequestHeader}
    (h : session.handshake.run conn = (.ok request, conn')) :
    Socks5Credentials session.config.accounts conn.input := by
  obtain ⟨start, conn₁, hstart, h⟩ := Talk.run_bind_eq_ok.mp h
  rw [Talk.run_orFail_eq_ok, Talk.run_read_eq_ok] at hstart
  dsimp only at h
  split_ifs at h with hversion hversion'
  · rw [ServerSession.handshake4, if_pos hauth] at h
    obtain ⟨-, conn₂, -, h⟩ := Talk.run_bind_eq_ok.mp h
    exact absurd h Talk.run_fail_ne_ok
  · obtain ⟨username, conn₂, hauth5, -⟩ := Talk.run_bind_eq_ok.mp h
    obtain ⟨husername, methods, version, password, hpassword, hmethods, hinput, hknown⟩ :=
      auth5_eq_ok hauth hauth5
    refine ⟨start.toList.getD 1 0, methods, version, username, password, conn₂.input, ?_, hmethods,
      husername, hpassword, hknown⟩
    rw [hstart.1, exists_of_vector_two, hversion', hinput]
    simp only [List.append_assoc, List.getD_cons_succ, List.getD_cons_zero]
  · exact absurd h Talk.run_fail_ne_ok

/-- The client has shown an account where the action begins. -/
def Authenticated (packages : Packages) (config : Socks.ServerConfig) (action : Action) : Prop :=
  Socks5Credentials config.accounts action.stream ∨
    Http.Credentials packages config.accounts action.stream

/-- The stream does not begin like SOCKS. -/
def OverHttp (stream : Bytes) : Prop := ∃ firstbyte ∈ stream.head?, firstbyte ≠ 5 ∧ firstbyte ≠ 4

section Process

variable {config : Socks.ServerConfig} {packages : Packages} {dispatch : Destination → Option Error}
  {rounds : List Round} {inbound : Inbound} {action : Action}

theorem accountsLen_pos_of_authenticated (h : Authenticated packages config action) :
    0 < accountsLen config.accounts := by
  obtain ⟨_, _, _, username, password, _, _, _, _, _, hknown⟩ |
    ⟨_, _, username, password, _, _, hknown⟩ := h
  · exact accountsLen_pos_of_known hknown
  · exact accountsLen_pos_of_known hknown

theorem stream_of_serve {s : Server} {stream : Bytes} {request : RequestHeader}
    (h : action ∈ (s.serve dispatch inbound stream request).1) : action.stream = stream := by
  rw [Server.serve] at h
  split at h
  · rw [List.mem_singleton.mp h]
    rfl
  · dsimp only at h
    split_ifs at h
    · rw [List.mem_singleton.mp h]
      rfl
    · cases h

theorem authenticated_of_processTCP (hauth : config.authType = .password)
    (h : action ∈ ((newServer config).processTCP dispatch inbound conn).1) :
    action.stream = conn.input ∧ Authenticated packages config action := by
  have hconfig : (newServer config).config = config := by
    rw [newServer, if_pos hauth]
  rw [Server.processTCP] at h
  split at h
  · cases h
  · dsimp only at h
    split at h
    · cases h
    · cases h
    · rename_i gateway _ _ request hhandshake
      have hstream := stream_of_serve h
      refine ⟨hstream, .inl ?_⟩
      rw [hstream]
      have hcredentials := handshake_credentials (by rwa [hconfig]) (Prod.ext hhandshake rfl)
      rwa [hconfig] at hcredentials

theorem process_of_overHttp (s : Server) (h : OverHttp conn.input) :
    s.process packages dispatch rounds inbound conn =
      processWithFirstbyte packages s.httpConfig dispatch rounds conn := by
  obtain ⟨firstbyte, hfirst, hne⟩ := h
  obtain ⟨rest, hinput⟩ := List.head?_eq_some_iff.mp hfirst
  rw [Server.process, hinput]
  dsimp only
  rw [if_pos hne]

theorem process_of_not_overHttp (s : Server) (h : ¬OverHttp conn.input) :
    (s.process packages dispatch rounds inbound conn).1 = [] ∨
      s.process packages dispatch rounds inbound conn = s.processTCP dispatch inbound conn := by
  rw [Server.process]
  split
  · exact .inl rfl
  · rename_i firstbyte rest hinput
    refine .inr (if_neg fun hne => h ⟨firstbyte, ?_, hne⟩)
    rw [hinput]
    rfl

/-- **Who is served where a password is asked for.** All that the server does for a client follows a user
name and password of the accounts, exactly if there are accounts or it does nothing over HTTP. -/
theorem process_authenticated_iff (hauth : config.authType = .password) :
    (∀ action ∈ ((newServer config).process packages dispatch rounds inbound conn).1,
        action.stream <:+ conn.input ∧ Authenticated packages config action) ↔
      0 < accountsLen config.accounts ∨ ¬(OverHttp conn.input ∧ Serves packages conn) := by
  have haccounts : (newServer config).httpConfig.accounts = config.accounts := by
    rw [newServer, if_pos hauth]
  have hserves (hempty : ¬0 < accountsLen config.accounts) :
      (processWithFirstbyte packages (newServer config).httpConfig dispatch rounds conn).1 ≠ [] ↔
        Serves packages conn :=
    processWithFirstbyte_ne_nil_iff (by rw [haccounts]; omega) (by rw [newServer, if_pos hauth])
  by_cases hhttp : OverHttp conn.input
  · rw [process_of_overHttp _ hhttp]
    constructor
    · intro hall
      by_contra hno
      rw [not_or, not_not] at hno
      obtain ⟨hempty, -, hrequest⟩ := hno
      obtain ⟨action, haction⟩ := List.exists_mem_of_ne_nil _ ((hserves hempty).mpr hrequest)
      exact hempty (accountsLen_pos_of_authenticated (hall action haction).2)
    · intro hcondition action haction
      have hpos : 0 < accountsLen config.accounts := by
        by_contra hempty
        have hrequest := (hserves hempty).mp (List.ne_nil_of_mem haction)
        tauto
      obtain ⟨hsuffix, haccepted⟩ := accepted_of_action haction
      have hcredentials := credentials_of_accepted (by rwa [haccounts]) haccepted
      rw [haccounts] at hcredentials
      exact ⟨hsuffix, .inr hcredentials⟩
  · refine iff_of_true (fun action haction => ?_) (.inr fun h => hhttp h.1)
    obtain hnone | hsocks := process_of_not_overHttp (newServer config) hhttp
    · rw [hnone] at haction
      cases haction
    · rw [hsocks] at haction
      obtain ⟨hstream, hauthenticated⟩ := authenticated_of_processTCP hauth haction
      exact ⟨by rw [hstream], hauthenticated⟩

def gatewayInbound : Inbound :=
  { gateway := some (tcpDestination (.ipv4 anyIP) 1080), localAddress := .ipv4 anyIP,
    remote := ascii "10.0.0.1:40000" }

def accountStream : Bytes :=
  [5, 1, 2] ++ [1, 1, 117, 1, 112] ++ [5, 1, 0, 3, 3, 97, 46, 98, 0, 80]

theorem process_authenticated_account :
    ((newServer { authType := .password, accounts := some [([117], [112])] }).process .connectOnly
        (fun _ => none) [] gatewayInbound { input := accountStream }).1 =
      [.dispatch accountStream (tcpDestination (.domain (ascii "a.b")) 80)] ∧
    ∀ action ∈ ((newServer { authType := .password, accounts := some [([117], [112])] }).process
        .connectOnly (fun _ => none) [] gatewayInbound { input := accountStream }).1,
      action.stream <:+ accountStream ∧
        Authenticated .connectOnly { authType := .password, accounts := some [([117], [112])] } action :=
  ⟨by decide +kernel, (process_authenticated_iff rfl).mpr (.inl (by decide))⟩

/-- Without accounts a `CONNECT` request is served to everyone. -/
theorem process_connect_without_accounts :
    ((newServer { authType := .password, accounts := none }).process .connectOnly (fun _ => none) []
        gatewayInbound { input := connectText }).1 =
      [.dispatch connectText (tcpDestination (.domain (ascii "example.com")) 80)] ∧
    ¬Authenticated .connectOnly { authType := .password, accounts := none }
      (.dispatch connectText (tcpDestination (.domain (ascii "example.com")) 80)) := by
  refine ⟨by decide +kernel, fun h => ?_⟩
  have hpos := accountsLen_pos_of_authenticated h
  cases hpos

end Process

end V2RootCore.Socks
