import V2RootCore.Http.Sniff
import V2RootCore.Proof.Go.Slices

/-!
# Sniffing a host from the beginning of a request

A request has one `Host` line. The sniffer sees a prefix of the request: some of its lines and the
beginning of one more.
-/

namespace V2RootCore.Http

open Go Net

/-- Some of the lines, and the beginning of the next one. -/
inductive Cut : List Bytes → List Bytes → Prop where
  | here {start line : Bytes} (h : start <+: line) (rest : List Bytes) : Cut (line :: rest) [start]
  | there (line : Bytes) {lines cut : List Bytes} (h : Cut lines cut) : Cut (line :: lines) (line :: cut)

section Cut

variable {lines cut : List Bytes}

theorem Cut.modifyHead (h : Cut lines cut) (x : UInt8) :
    Cut (lines.modifyHead (x :: ·)) (cut.modifyHead (x :: ·)) := by
  cases h with
  | here h rest => exact .here (List.cons_prefix_cons.mpr ⟨rfl, h⟩) rest
  | there line h => exact .there (x :: line) h

theorem cut_splitOn {b p : Bytes} (h : p <+: b) : Cut (b.splitOn 10) (p.splitOn 10) := by
  induction p generalizing b with
  | nil =>
      match hlines : b.splitOn 10 with
      | [] => exact absurd hlines (List.splitOn_ne_nil 10 b)
      | line :: rest => exact .here List.nil_prefix rest
  | cons x p ih =>
      obtain ⟨rest, rfl⟩ := h
      have hrest := ih (List.prefix_append p rest)
      rw [List.cons_append, List.splitOn_cons_eq_if_modifyHead, List.splitOn_cons_eq_if_modifyHead]
      split
      · exact .there [] hrest
      · exact hrest.modifyHead x

theorem exists_prefix_of_cut {b : Bytes} (h : Cut (b.splitOn 10) cut) :
    ∃ p, p <+: b ∧ p.splitOn 10 = cut := by
  induction b generalizing cut with
  | nil =>
      cases h with
      | here h rest =>
          obtain rfl := List.prefix_nil.mp h
          exact ⟨[], List.nil_prefix, rfl⟩
      | there line h => cases h
  | cons x b ih =>
      have hcons : ∀ p, p <+: b → x :: p <+: x :: b := fun p hp => List.cons_prefix_cons.mpr ⟨rfl, hp⟩
      rw [List.splitOn_cons_eq_if_modifyHead] at h
      by_cases hline : (x == 10) = true
      · rw [if_pos hline] at h
        cases h with
        | here h rest =>
            obtain rfl := List.prefix_nil.mp h
            exact ⟨[], List.nil_prefix, rfl⟩
        | there line h =>
            obtain ⟨p, hp, rfl⟩ := ih h
            exact ⟨x :: p, hcons p hp, by rw [List.splitOn_cons_eq_if_modifyHead, if_pos hline]⟩
      · rw [if_neg hline] at h
        -- Whatever is cut off behind the first byte is cut off from `b`.
        have hbehind : ∀ cut', Cut (b.splitOn 10) cut' →
            ∃ p, p <+: x :: b ∧ p.splitOn 10 = cut'.modifyHead (x :: ·) := by
          intro cut' hcut
          obtain ⟨p, hp, rfl⟩ := ih hcut
          exact ⟨x :: p, hcons p hp, by rw [List.splitOn_cons_eq_if_modifyHead, if_neg hline]⟩
        match hlines : b.splitOn 10, h with
        | line :: rest, .here hstart _ =>
            obtain rfl | ⟨start, rfl, htail⟩ := List.prefix_cons_iff.mp hstart
            · exact ⟨[], List.nil_prefix, rfl⟩
            · exact hbehind [start] (hlines ▸ .here htail rest)
        | line :: rest, @Cut.there _ _ tail hrest =>
            exact hbehind (line :: tail) (hlines ▸ .there line hrest)

end Cut

section Headers

variable {texts : Texts} {host : Bytes}

/-- A line with the key `host` in front of its first colon, and what is behind the colon. -/
def IsHost (texts : Texts) (line value : Bytes) : Prop :=
  ∃ key, line = key ++ 58 :: value ∧ 58 ∉ key ∧ texts.toLower key = ascii "host"

/-- The host that such a line names. -/
def hostOf (texts : Texts) (value : Bytes) : Except Error Bytes :=
  (parseHost (texts.toLower (trimSpace value)) 80).map fun dest => (dest.address.map texts.addressString).getD []

/-- No beginning of the line names another host. -/
def Agreeing (texts : Texts) (host line : Bytes) : Prop :=
  ∀ start, start <+: line → ∀ value, IsHost texts start value → ∀ other, hostOf texts value = .ok other →
    other = [] ∨ other = host

/-- The line is neither empty nor one with the key `host` that names no proper host. -/
def Passed (texts : Texts) (line : Bytes) : Prop :=
  line ≠ [] ∧ ∀ value, IsHost texts line value → ∃ host, hostOf texts value = .ok host

/-- Up to a line that is not passed, no beginning of a line names another host. -/
def AllAgree (texts : Texts) (host : Bytes) : List Bytes → Prop
  | [] => True
  | line :: rest => Agreeing texts host line ∧ (Passed texts line → AllAgree texts host rest)

theorem headerHost_eq_some_iff {line : Bytes} {found : Except Error Bytes} :
    headerHost texts line = some found ↔ ∃ value, IsHost texts line value ∧ hostOf texts value = found := by
  constructor
  · intro h
    by_cases hmem : 58 ∈ line
    · obtain ⟨key, value, rfl, hkey⟩ := List.eq_append_cons_of_mem hmem
      rw [headerHost, splitTwo, if_pos hmem, cut_append hkey] at h
      dsimp only at h
      split_ifs at h with hlower
      exact ⟨value, ⟨key, rfl, hkey, hlower⟩, Option.some.inj h⟩
    · rw [headerHost, splitTwo, if_neg hmem] at h
      cases h
  · rintro ⟨value, ⟨key, rfl, hkey, hlower⟩, rfl⟩
    rw [headerHost, splitTwo, if_pos (by simp), cut_append hkey]
    exact if_pos hlower

theorem agreeing_iff {line : Bytes} : Agreeing texts host line ↔ ∀ start, start <+: line →
    ∀ other, headerHost texts start = some (.ok other) → other = [] ∨ other = host := by
  refine forall₂_congr fun start _ => ⟨fun h other hother => ?_, fun h value hvalue other hother => ?_⟩
  · obtain ⟨value, hvalue, hhost⟩ := headerHost_eq_some_iff.mp hother
    exact h value hvalue other hhost
  · exact h other (headerHost_eq_some_iff.mpr ⟨value, hvalue, hother⟩)

theorem passed_iff {line : Bytes} :
    Passed texts line ↔ line ≠ [] ∧ ∀ err, headerHost texts line ≠ some (.error err) := by
  refine and_congr_right fun _ => ⟨fun h err herr => ?_, fun h value hvalue => ?_⟩
  · obtain ⟨value, hvalue, herror⟩ := headerHost_eq_some_iff.mp herr
    obtain ⟨host, hhost⟩ := h value hvalue
    rw [herror] at hhost
    cases hhost
  · cases hhost : hostOf texts value with
    | error err => exact absurd (headerHost_eq_some_iff.mpr ⟨value, hvalue, hhost⟩) (h err)
    | ok host => exact ⟨host, rfl⟩

theorem sniffHeaders_iff (lines : List Bytes) (before : Bytes) (hbefore : before = [] ∨ before = host) :
    (∀ cut, Cut lines cut → ∀ other, sniffHeaders texts cut before = .ok other → other = [] ∨ other = host) ↔
      AllAgree texts host lines := by
  induction lines generalizing before with
  | nil => exact iff_of_true nofun trivial
  | cons line lines ih =>
      rw [AllAgree, agreeing_iff, passed_iff]
      constructor
      · intro h
        have hline : ∀ start, start <+: line → ∀ other, headerHost texts start = some (.ok other) →
            other = [] ∨ other = host := by
          intro start hstart other hother
          refine h [start] (.here hstart lines) other ?_
          have hne : start ≠ [] := by
            rintro rfl
            cases hother
          rw [sniffHeaders, if_neg hne, hother]
          rfl
        refine ⟨hline, fun hpassed => ?_⟩
        match hhost : headerHost texts line with
        | none =>
            refine (ih before hbefore).mp fun cut hcut other hother => h _ (.there line hcut) other ?_
            rw [sniffHeaders, if_neg hpassed.1, hhost]
            exact hother
        | some (.error err) => exact absurd hhost (hpassed.2 err)
        | some (.ok found) =>
            refine (ih found (hline line List.prefix_rfl found hhost)).mp fun cut hcut other hother =>
              h _ (.there line hcut) other ?_
            rw [sniffHeaders, if_neg hpassed.1, hhost]
            exact hother
      · rintro ⟨hline, hrest⟩ cut hcut other hother
        cases hcut with
        | here hstart _ =>
            rename_i start
            rw [sniffHeaders] at hother
            split_ifs at hother with hne
            · exact Except.ok.inj hother ▸ hbefore
            · match hhost : headerHost texts start, hother with
              | none, hother => exact Except.ok.inj hother ▸ hbefore
              | some (.ok found), hother => exact hline start hstart _ (hhost.trans (congrArg _ hother))
        | there _ hcut =>
            rw [sniffHeaders] at hother
            split_ifs at hother with hne
            · exact Except.ok.inj hother ▸ hbefore
            · match hhost : headerHost texts line, hother with
              | none, hother =>
                  refine (ih before hbefore).mpr (hrest ⟨hne, ?_⟩) _ hcut other hother
                  rw [hhost]
                  exact nofun
              | some (.ok found), hother =>
                  have hfound := hline line List.prefix_rfl found hhost
                  refine (ih found hfound).mpr (hrest ⟨hne, ?_⟩) _ hcut other hother
                  rw [hhost]
                  exact nofun

theorem headerHost_eq_none {line start : Bytes} (h : headerHost texts line = none) (hstart : start <+: line) :
    headerHost texts start = none := by
  by_cases hmem : 58 ∈ start
  · obtain ⟨rest, rfl⟩ := hstart
    obtain ⟨key, value, rfl, hkey⟩ := List.eq_append_cons_of_mem hmem
    rw [headerHost, splitTwo, if_pos (List.mem_append_left rest hmem), List.append_assoc, List.cons_append,
      cut_append hkey] at h
    rw [headerHost, splitTwo, if_pos hmem, cut_append hkey]
    dsimp only at h ⊢
    split_ifs at h ⊢
    rfl
  · rw [headerHost, splitTwo, if_neg hmem]

theorem allAgree_cons_of_none {line : Bytes} {lines : List Bytes} (hline : headerHost texts line = none)
    (hne : line ≠ []) : AllAgree texts host (line :: lines) ↔ AllAgree texts host lines := by
  have hpassed : Passed texts line := passed_iff.mpr ⟨hne, by rw [hline]; exact nofun⟩
  refine ⟨fun h => h.2 hpassed, fun h => ⟨agreeing_iff.mpr fun start hstart other hother => ?_, fun _ => h⟩⟩
  rw [headerHost_eq_none hline hstart] at hother
  cases hother

theorem allAgree_append {fields lines : List Bytes}
    (hfields : ∀ field ∈ fields, headerHost texts field = none ∧ field ≠ []) :
    AllAgree texts host (fields ++ lines) ↔ AllAgree texts host lines := by
  induction fields with
  | nil => rfl
  | cons field fields ih =>
      obtain ⟨hfield, hne⟩ := hfields field List.mem_cons_self
      exact (allAgree_cons_of_none hfield hne).trans
        (ih fun field hmem => hfields field (List.mem_cons_of_mem _ hmem))

end Headers

/-- A request with one `Host` line that is valid. A line may end in a carriage return; the blank line does
if `crlf` is set. -/
structure RequestStream (texts : Texts) where
  method : Bytes
  target : Bytes
  minor : Bytes
  before : List Bytes
  hostLine : Bytes
  after : List Bytes
  crlf : Bool
  body : Bytes
  host : Bytes
  request_lf : 10 ∉ method ++ [32] ++ target ++ ascii " HTTP/1." ++ minor
  fields_lf : ∀ field ∈ before ++ hostLine :: after, 10 ∉ field
  fields_ne : ∀ field ∈ before ++ hostLine :: after, field ≠ [] ∧ field ≠ [13]
  others : ∀ field ∈ before ++ after, headerHost texts field = none
  hostLine_host : headerHost texts hostLine = some (.ok host)
  host_ne : host ≠ []

namespace RequestStream

variable {texts : Texts} (S : RequestStream texts)

def requestLine : Bytes := S.method ++ [32] ++ S.target ++ ascii " HTTP/1." ++ S.minor

/-- The lines after the first one, up to the blank line. -/
def headers : List Bytes := S.before ++ S.hostLine :: S.after ++ [if S.crlf then [13] else []]

def bytes : Bytes := S.requestLine ++ [10] ++ S.headers.flatMap (· ++ [10]) ++ S.body

/-- Whatever arrived of the request, if a host is found, then that of its `Host` line. -/
def Agrees : Prop := ∀ p, p <+: S.bytes → ∀ found, sniffHTTP texts p = .ok found → found = S.host

theorem splitOn_append {lines : List Bytes} (hlines : ∀ line ∈ lines, 10 ∉ line) (rest : Bytes) :
    (lines.flatMap (· ++ [10]) ++ rest).splitOn 10 = lines ++ rest.splitOn 10 := by
  induction lines with
  | nil => rfl
  | cons line lines ih =>
      rw [List.flatMap_cons, List.append_assoc, List.append_assoc, List.singleton_append,
        List.splitOn_append_cons_self_of_not_mem (hlines line List.mem_cons_self),
        ih fun line hmem => hlines line (List.mem_cons_of_mem _ hmem)]
      rfl

theorem splitOn_bytes : S.bytes.splitOn 10 = S.requestLine :: (S.headers ++ S.body.splitOn 10) := by
  have hheaders : ∀ line ∈ S.headers, 10 ∉ line := by
    intro line hmem
    rcases List.mem_append.mp hmem with hmem | hmem
    · exact S.fields_lf line hmem
    · rw [List.mem_singleton.mp hmem]
      split <;> decide
  have hrequest : 10 ∉ S.requestLine := S.request_lf
  rw [bytes, List.append_assoc, List.append_assoc, List.singleton_append,
    List.splitOn_append_cons_self_of_not_mem hrequest, splitOn_append hheaders]

theorem beginsWith_eq {b p : Bytes} (h : p <+: b) (hlength : 7 ≤ p.length) {names : List Bytes}
    (hnames : ∀ m ∈ names, m.length ≤ 7) : beginsWith p names = beginsWith b names := by
  have hle := h.length_le
  induction names with
  | nil => rfl
  | cons m names ih =>
      have hm := hnames m List.mem_cons_self
      have htake : p.take m.length = b.take m.length := by
        obtain ⟨rest, rfl⟩ := h
        rw [List.take_append_of_le_length (by omega)]
      have hfits : m.length ≤ p.length ↔ m.length ≤ b.length := iff_of_true (by omega) (by omega)
      rw [beginsWith, beginsWith, htake, ih fun m hmem => hnames m (List.mem_cons_of_mem _ hmem),
        if_neg (show ¬p.length < m.length by omega), if_neg (show ¬b.length < m.length by omega)]
      exact if_congr (and_congr_left fun _ => hfits) rfl rfl

/-- What arrived of a request with its first line decides about the method. -/
theorem beginWithHTTPMethod_eq {p : Bytes} {lines : List Bytes} (h : p <+: S.bytes)
    (hlines : p.splitOn 10 = S.requestLine :: lines) :
    beginWithHTTPMethod p = beginWithHTTPMethod S.bytes := by
  refine beginsWith_eq h ?_ (by decide)
  have hjoin : [10].intercalate (S.requestLine :: lines) = p := hlines ▸ List.intercalate_splitOn 10
  have hle : S.requestLine.length ≤ p.length := by
    rw [← hjoin]
    cases lines <;> simp [List.intercalate]
  have hversion : (ascii " HTTP/1.").length = 8 := rfl
  rw [requestLine, List.length_append, List.length_append, hversion] at hle
  omega

theorem sniffHTTP_eq_ok {p found : Bytes} : sniffHTTP texts p = .ok found ↔ beginWithHTTPMethod p = none ∧
    sniffHeaders texts ((p.splitOn 10).drop 1) [] = .ok found ∧ found ≠ [] := by
  rw [sniffHTTP]
  match beginWithHTTPMethod p with
  | some err => exact iff_of_false nofun nofun
  | none =>
      dsimp only
      rw [bind_eq_ok]
      constructor
      · rintro ⟨host, hhost, h⟩
        split_ifs at h with hne
        cases h
        exact ⟨rfl, hhost, hne⟩
      · rintro ⟨-, hhost, hne⟩
        exact ⟨found, hhost, if_pos hne⟩

theorem agrees_iff_allAgree : S.Agrees ↔ (beginWithHTTPMethod S.bytes = none →
    AllAgree texts S.host (S.headers ++ S.body.splitOn 10)) := by
  rw [← sniffHeaders_iff _ [] (.inl rfl)]
  constructor
  · intro h hbegin cut hcut found hfound
    by_cases hne : found = []
    · exact .inl hne
    · have hcut' : Cut (S.bytes.splitOn 10) (S.requestLine :: cut) := S.splitOn_bytes ▸ .there _ hcut
      obtain ⟨p, hp, hlines⟩ := exists_prefix_of_cut hcut'
      refine .inr (h p hp found (sniffHTTP_eq_ok.mpr ⟨?_, ?_, hne⟩))
      · exact (S.beginWithHTTPMethod_eq hp hlines).trans hbegin
      · rw [hlines]
        exact hfound
  · intro h p hp found hfound
    obtain ⟨hbegin, hheaders, hne⟩ := sniffHTTP_eq_ok.mp hfound
    have hcut := cut_splitOn hp
    rw [S.splitOn_bytes] at hcut
    generalize hlines : p.splitOn 10 = lines at hcut hheaders
    cases hcut with
    | here => cases hheaders; exact absurd rfl hne
    | there _ hcut =>
        have hbegin' := (S.beginWithHTTPMethod_eq hp hlines).symm.trans hbegin
        exact (h hbegin' _ hcut found hheaders).resolve_left hne

/-- **When the host does not depend on what arrived.** The sniffer finds the host of the `Host` line or none
in whatever arrived of a request, exactly if its method is not known, or no beginning of the `Host` line has
another host and, where the blank line ends in a carriage return, no beginning of a line of the body does
that the sniffer gets to. -/
theorem agrees_iff : S.Agrees ↔ (beginWithHTTPMethod S.bytes = none → Agreeing texts S.host S.hostLine ∧
    (S.crlf = true → AllAgree texts S.host (S.body.splitOn 10))) := by
  have hfield : ∀ field ∈ S.before ++ S.after, headerHost texts field = none ∧ field ≠ [] := by
    intro field hmem
    refine ⟨S.others field hmem, (S.fields_ne field ?_).1⟩
    rcases List.mem_append.mp hmem with hmem | hmem
    · exact List.mem_append_left _ hmem
    · exact List.mem_append_right _ (List.mem_cons_of_mem _ hmem)
  have hpassed : Passed texts S.hostLine := by
    refine passed_iff.mpr ⟨(S.fields_ne _ (List.mem_append_right _ List.mem_cons_self)).1, ?_⟩
    rw [S.hostLine_host]
    exact nofun
  have hblank : AllAgree texts S.host ((if S.crlf then [13] else []) :: S.body.splitOn 10) ↔
      (S.crlf = true → AllAgree texts S.host (S.body.splitOn 10)) := by
    by_cases hcrlf : S.crlf = true
    · rw [if_pos hcrlf]
      exact (allAgree_cons_of_none rfl (List.cons_ne_nil _ _)).trans (imp_iff_right hcrlf).symm
    · rw [if_neg hcrlf]
      refine iff_of_true ⟨agreeing_iff.mpr fun start hstart other hother => ?_, fun h => absurd rfl h.1⟩
        (absurd · hcrlf)
      rw [List.prefix_nil.mp hstart] at hother
      cases hother
  refine S.agrees_iff_allAgree.trans (imp_congr_right fun _ => ?_)
  rw [headers, List.append_assoc, List.append_assoc, List.cons_append,
    allAgree_append fun field hmem => hfield field (List.mem_append_left _ hmem)]
  refine and_congr_right fun _ => (imp_iff_right hpassed).trans ?_
  rw [List.singleton_append, allAgree_append fun field hmem => hfield field (List.mem_append_right _ hmem)]
  exact hblank

/-- A request to `ab`. -/
def toAb : RequestStream { toLower, ipString := id } where
  method := ascii "GET"
  target := ascii "/"
  minor := ascii "1" ++ [13]
  before := []
  hostLine := ascii "Host: ab" ++ [13]
  after := []
  crlf := true
  body := []
  host := ascii "ab"
  request_lf := by decide
  fields_lf := by decide
  fields_ne := by decide
  others := by decide
  hostLine_host := rfl
  host_ne := by decide

/-- The first seven bytes of its `Host` line name the host `a`. -/
theorem not_agrees_toAb : ¬toAb.Agrees := by
  intro h
  have hfound := h (toAb.requestLine ++ [10] ++ ascii "Host: a") ⟨ascii "b" ++ [13, 10, 13, 10], rfl⟩
    (ascii "a") rfl
  exact absurd hfound (by decide)

end RequestStream

end V2RootCore.Http
