import V2RootCore.Transport.SortIps

/-!
# Runs of addresses

What a cursor has left of the family whose turn it is and of the other one decides how the loop goes on, whichever
of the two it is. The turn counter is back at zero after as many turns as `interleave` says, or after 2^32 of them.
-/

namespace V2RootCore.Transport

open Go

section Alternate

variable {α : Type}

/-- Runs of `n` elements of two lists in turn, starting with the first, and all of what is left once one of the two
is used up. -/
def alternate (n : Nat) (xs ys : List α) : List α :=
  if n < xs.length ∧ 0 < n then xs.take n ++ alternate n ys (xs.drop n) else xs ++ ys
termination_by xs.length + ys.length
decreasing_by
  rw [List.length_drop]
  omega

/-- The same with only `first` elements in the first run. -/
def alternateFrom (n first : Nat) (xs ys : List α) : List α :=
  if first < xs.length then xs.take first ++ alternate n ys (xs.drop first) else xs ++ ys

theorem alternateFrom_self {n : Nat} (hn : 0 < n) (xs ys : List α) :
    alternateFrom n n xs ys = alternate n xs ys := by
  rw [alternate.eq_def, alternateFrom]
  simp only [and_iff_left hn]

theorem alternateFrom_cons (n first : Nat) (x : α) {xs : List α} (hxs : xs ≠ []) (ys : List α) :
    alternateFrom n (first + 1) (x :: xs) ys =
      x :: if first = 0 then alternate n ys xs else alternateFrom n first xs ys := by
  have hpos := List.length_pos_iff.mpr hxs
  unfold alternateFrom
  simp only [List.length_cons, Nat.add_lt_add_iff_right, List.take_succ_cons, List.drop_succ_cons]
  by_cases hzero : first = 0
  · rw [if_pos hzero, hzero, if_pos hpos, List.take_zero, List.drop_zero]
    rfl
  · rw [if_neg hzero]
    split_ifs <;> rfl

theorem filter_alternate (n : Nat) (xs ys : List α) {p : α → Bool} (hxs : ∀ x ∈ xs, p x = true)
    (hys : ∀ y ∈ ys, p y = false) :
    (alternate n xs ys).filter p = xs ∧ ((alternate n xs ys).filter fun a => !p a) = ys := by
  fun_induction alternate n xs ys generalizing p with
  | case1 xs ys hlt ih =>
      have htake : ∀ x ∈ xs.take n, p x = true := fun x hx => hxs x (List.mem_of_mem_take hx)
      obtain ⟨hfirst, hsecond⟩ := ih (p := fun a => !p a) (fun y hy => by rw [hys y hy]; rfl)
        fun x hx => by rw [hxs x (List.mem_of_mem_drop hx)]; rfl
      simp only [Bool.not_not] at hsecond
      rw [List.filter_append, List.filter_append, hfirst, hsecond, List.filter_eq_self.mpr htake,
        List.filter_eq_nil_iff.mpr fun x hx => by simp [htake x hx], List.take_append_drop]
      exact ⟨rfl, rfl⟩
  | case2 xs ys hend =>
      rw [List.filter_append, List.filter_append, List.filter_eq_self.mpr hxs,
        List.filter_eq_nil_iff.mpr fun y hy => by simp [hys y hy],
        List.filter_eq_nil_iff.mpr fun x hx => by simp [hxs x hx],
        List.filter_eq_self.mpr fun y hy => by simp [hys y hy], List.append_nil]
      exact ⟨rfl, rfl⟩

theorem map_alternate {β : Type} (f : α → β) (n : Nat) (xs ys : List α) :
    (alternate n xs ys).map f = alternate n (xs.map f) (ys.map f) := by
  fun_induction alternate n xs ys with
  | case1 xs ys hlt ih =>
      rw [alternate.eq_def n (xs.map f), List.length_map, if_pos hlt, List.map_append, ih, List.map_take,
        List.map_drop]
  | case2 xs ys hend => rw [alternate.eq_def n (xs.map f), List.length_map, if_neg hend, List.map_append]

end Alternate

section Loop

variable {ip4 ip6 mine other rest : List IP} {interleave : UInt32} {c : Cursor} {ip : IP}

/-- The length of a run. -/
def runLength (interleave : UInt32) : Nat := if interleave = 0 then 2 ^ 32 else interleave.toNat

theorem runLength_pos (interleave : UInt32) : 0 < runLength interleave := by
  unfold runLength
  split_ifs with hzero
  · decide
  · exact Nat.pos_of_ne_zero fun h => hzero (UInt32.toNat_inj.mp h)

theorem turn_ends_iff {turn : UInt32} (hturn : turn.toNat < runLength interleave) :
    turn + 1 = interleave ↔ turn.toNat + 1 = runLength interleave := by
  have hlt := turn.toNat_lt
  have hlt' := interleave.toNat_lt
  rw [runLength] at *
  rw [← UInt32.toNat_inj, UInt32.toNat_add]
  split_ifs at hturn ⊢ with hzero
  · subst hzero
    have : (0 : UInt32).toNat = 0 := rfl
    have : (1 : UInt32).toNat = 1 := rfl
    omega
  · have : interleave.toNat ≠ 0 := fun h => hzero (UInt32.toNat_inj.mp h)
    have : (1 : UInt32).toNat = 1 := rfl
    omega

/-- What is left of the family whose turn it is and of the other one. -/
def Left (ip4 ip6 : List IP) (c : Cursor) (mine other : List IP) : Prop :=
  c.consumeIP4 ≤ ip4.length ∧ c.consumeIP6 ≤ ip6.length ∧
    if c.ip4turn = true then ip4.drop c.consumeIP4 = mine ∧ ip6.drop c.consumeIP6 = other
    else ip6.drop c.consumeIP6 = mine ∧ ip4.drop c.consumeIP4 = other

theorem drop_eq_cons {α : Type} {l rest : List α} {i : Nat} {a : α} (h : l.drop i = a :: rest) :
    l[i]? = some a ∧ l.drop (i + 1) = rest ∧ i < l.length ∧ (i + 1 = l.length ↔ rest = []) := by
  have hlt : i < l.length := by
    by_contra hge
    rw [List.drop_of_length_le (not_lt.mp hge)] at h
    cases h
  rw [List.drop_eq_getElem_cons hlt] at h
  obtain ⟨rfl, rfl⟩ := List.cons.inj h
  refine ⟨List.getElem?_eq_getElem hlt, rfl, hlt, ?_⟩
  rw [List.drop_eq_nil_iff]
  omega

/-- What one turn of the loop does, for both families. -/
theorem consume_spec (hleft : Left ip4 ip6 c (ip :: rest) other)
    (hturn : c.consumeTurn.toNat < runLength interleave) :
    (rest = [] → consume ip4 ip6 interleave c = .ok (.inl (c.newIPs ++ ip :: other))) ∧
      (rest ≠ [] → ∃ c', consume ip4 ip6 interleave c = .ok (.inr c') ∧ c'.newIPs = c.newIPs ++ [ip] ∧
        if c.consumeTurn.toNat + 1 = runLength interleave then
          Left ip4 ip6 c' other rest ∧ c'.consumeTurn.toNat = 0
        else Left ip4 ip6 c' rest other ∧ c'.consumeTurn.toNat = c.consumeTurn.toNat + 1) := by
  have hcount : ¬c.consumeTurn.toNat + 1 = runLength interleave →
      (c.consumeTurn + 1).toNat = c.consumeTurn.toNat + 1 := by
    intro hmore
    have hle : runLength interleave ≤ 2 ^ 32 := by
      unfold runLength
      split_ifs
      · exact le_rfl
      · exact interleave.toNat_lt.le
    rw [UInt32.toNat_add]
    exact Nat.mod_eq_of_lt (by change c.consumeTurn.toNat + 1 < 2 ^ 32; omega)
  obtain ⟨hfour, hsix, hviews⟩ := hleft
  unfold consume
  cases hfamily : c.ip4turn with
  | true =>
      rw [hfamily, if_pos rfl] at hviews
      obtain ⟨hat, hnext, hlt, hlast⟩ := drop_eq_cons hviews.1
      rw [if_pos rfl, hat]
      simp only [hlast, turn_ends_iff hturn]
      refine ⟨fun hnil => ?_, fun hne => ?_⟩
      · rw [if_pos hnil, if_pos hsix, hviews.2, List.append_assoc, List.singleton_append]
      · rw [if_neg hne]
        split_ifs with hends
        · exact ⟨_, rfl, rfl, ⟨hlt, hsix, by simp [hnext, hviews.2]⟩, rfl⟩
        · exact ⟨_, rfl, rfl, ⟨hlt, hsix, by simp [hnext, hviews.2]⟩, hcount hends⟩
  | false =>
      rw [hfamily, if_neg Bool.false_ne_true] at hviews
      obtain ⟨hat, hnext, hlt, hlast⟩ := drop_eq_cons hviews.1
      rw [if_neg Bool.false_ne_true, hat]
      simp only [hlast, turn_ends_iff hturn]
      refine ⟨fun hnil => ?_, fun hne => ?_⟩
      · rw [if_pos hnil, if_pos hfour, hviews.2, List.append_assoc, List.singleton_append]
      · rw [if_neg hne]
        split_ifs with hends
        · exact ⟨_, rfl, rfl, ⟨hfour, hlt, by simp [hnext, hviews.2]⟩, rfl⟩
        · exact ⟨_, rfl, rfl, ⟨hfour, hlt, by simp [hnext, hviews.2]⟩, hcount hends⟩

theorem loop_consume {fuel : Nat} (hleft : Left ip4 ip6 c mine other) (hmine : mine ≠ []) (hother : other ≠ [])
    (hturn : c.consumeTurn.toNat < runLength interleave) (hfuel : mine.length + other.length ≤ fuel) :
    loop .panicked (consume ip4 ip6 interleave) fuel c = .ok (c.newIPs ++
      alternateFrom (runLength interleave) (runLength interleave - c.consumeTurn.toNat) mine other) := by
  induction fuel generalizing c mine other with
  | zero =>
      have := List.length_pos_iff.mpr hmine
      omega
  | succ fuel ih =>
      obtain ⟨ip, rest, rfl⟩ := List.exists_cons_of_ne_nil hmine
      obtain ⟨hlast, hmore⟩ := consume_spec hleft hturn
      obtain ⟨first, hfirst⟩ : ∃ first, runLength interleave - c.consumeTurn.toNat = first + 1 :=
        Nat.exists_eq_add_one_of_ne_zero (Nat.sub_ne_zero_of_lt hturn)
      rw [List.length_cons] at hfuel
      rw [loop, hfirst]
      by_cases hnil : rest = []
      · rw [hlast hnil, alternateFrom, if_neg (by simp [hnil]), hnil]
        rfl
      · obtain ⟨c', hnext, hips, hc'⟩ := hmore hnil
        rw [hnext]
        dsimp only
        rw [alternateFrom_cons _ _ _ hnil]
        split_ifs at hc' with hends
        · obtain ⟨hleft', hzero⟩ := hc'
          rw [ih hleft' hother hnil (hzero ▸ runLength_pos _) (by omega), hips, hzero, Nat.sub_zero,
            alternateFrom_self (runLength_pos _), if_pos (by omega), List.append_assoc, List.singleton_append]
        · obtain ⟨hleft', hcount⟩ := hc'
          rw [ih hleft' hnil hother (by omega) (by omega), hips, hcount, if_neg (by omega), List.append_assoc,
            List.singleton_append, show runLength interleave - (c.consumeTurn.toNat + 1) = first by omega]

end Loop

/-! ### The order that is asked for -/

/-- The IPv4 address of four bytes, or of sixteen that map it into IPv6. -/
def IP.four (ip : IP) : Option Bytes :=
  if ip.1.length = 4 then some ip.1
  else if ip.1.take 12 = [0, 0, 0, 0, 0, 0, 0, 0, 0, 0, 255, 255] then some (ip.1.drop 12)
  else none

/-- An address, in which an IPv4 address has four bytes. -/
def IP.form (ip : IP) : Bytes := ip.four.getD ip.1

def addresses4 (ips : List IP) : List Bytes := ips.filterMap IP.four

def addresses6 (ips : List IP) : List Bytes := (ips.filter fun ip => ip.four = none).map IP.form

def preferred (prioritizeIPv6 : Bool) (ips : List IP) : List Bytes :=
  if prioritizeIPv6 then addresses6 ips else addresses4 ips

def unpreferred (prioritizeIPv6 : Bool) (ips : List IP) : List Bytes :=
  if prioritizeIPv6 then addresses4 ips else addresses6 ips

structure Ordered (prioritizeIPv6 : Bool) (interleave : UInt32) (ips sorted : List IP) : Prop where
  permutation : (sorted.map IP.form).Perm (ips.map IP.form)
  keeps4 : addresses4 sorted = addresses4 ips
  keeps6 : addresses6 sorted = addresses6 ips
  alternates : addresses4 ips ≠ [] → addresses6 ips ≠ [] → sorted.map IP.form =
    alternate (runLength interleave) (preferred prioritizeIPv6 ips) (unpreferred prioritizeIPv6 ips)
  first : addresses4 ips ≠ [] → addresses6 ips ≠ [] → interleave = 0 →
    (preferred prioritizeIPv6 ips).length < 2 ^ 32 →
    sorted.map IP.form = preferred prioritizeIPv6 ips ++ unpreferred prioritizeIPv6 ips

section Families

variable {ips : List IP}

def IP.bytes (ip : IP) : Bytes := ip.1

theorem parsedIp_eq (ip : IP) : ip.parsedIp.bytes = ip.form ∧ ip.parsedIp.isIPv4 = ip.four.isSome := by
  obtain ⟨bytes, hlength⟩ := ip
  rcases hlength with hfour | hsixteen
  · simp [IP.bytes, IP.parsedIp, IP.isIPv4, IP.form, IP.four, hfour]
  · by_cases hmapped : bytes.take 12 = Net.v4InV6Prefix
    · simp [IP.bytes, IP.parsedIp, IP.isIPv4, IP.form, IP.four, hsixteen, hmapped, Net.v4InV6Prefix]
    · have hother : bytes.take 12 ≠ [0, 0, 0, 0, 0, 0, 0, 0, 0, 0, 255, 255] := hmapped
      simp [IP.bytes, IP.parsedIp, IP.isIPv4, IP.form, IP.four, hsixteen, hmapped, hother]

theorem map_parsedIp (ips : List IP) : (ips.map IP.parsedIp).map IP.bytes = ips.map IP.form := by
  rw [List.map_map]
  exact List.map_congr_left fun ip _ => (parsedIp_eq ip).1

theorem map_families (ips : List IP) :
    (family4 ips).map IP.bytes = addresses4 ips ∧ (family6 ips).map IP.bytes = addresses6 ips := by
  induction ips with
  | nil => exact ⟨rfl, rfl⟩
  | cons ip ips ih =>
      obtain ⟨hform, hfamily⟩ := parsedIp_eq ip
      rw [family4, family6, List.map_cons, List.filter_cons, List.filter_cons, hfamily, addresses4,
        addresses6, List.filterMap_cons, List.filter_cons]
      cases hfour : ip.four with
      | none => exact ⟨ih.1, congrArg₂ List.cons hform ih.2⟩
      | some four =>
          rw [IP.form, hfour] at hform
          exact ⟨congrArg₂ List.cons hform ih.1, ih.2⟩

/-- The families in the order in which they are preferred. -/
def firstFamily (prioritizeIPv6 : Bool) (ips : List IP) : List IP :=
  if prioritizeIPv6 then family6 ips else family4 ips

def secondFamily (prioritizeIPv6 : Bool) (ips : List IP) : List IP :=
  if prioritizeIPv6 then family4 ips else family6 ips

theorem map_firstFamily (prioritizeIPv6 : Bool) (ips : List IP) :
    (firstFamily prioritizeIPv6 ips).map IP.bytes = preferred prioritizeIPv6 ips ∧
      (secondFamily prioritizeIPv6 ips).map IP.bytes = unpreferred prioritizeIPv6 ips := by
  cases prioritizeIPv6 with
  | false => exact map_families ips
  | true => exact (map_families ips).symm

theorem parsedIp_parsedIp (ip : IP) : ip.parsedIp.parsedIp = ip.parsedIp := by
  by_cases h : ip.1.length = 16 ∧ ip.1.take 12 = Net.v4InV6Prefix
  · have hparsed : ip.parsedIp = ⟨ip.1.drop 12, .inl (by rw [List.length_drop, h.1])⟩ := dif_pos h
    rw [hparsed]
    refine dif_neg fun hagain => ?_
    have hlength := hagain.1
    rw [List.length_drop, h.1] at hlength
    omega
  · have hparsed : ip.parsedIp = ip := dif_neg h
    rw [hparsed, hparsed]

theorem families_perm (ips : List IP) : (family4 ips ++ family6 ips).Perm (ips.map IP.parsedIp) :=
  List.filter_append_perm IP.isIPv4 (ips.map IP.parsedIp)

theorem mem_families {ip : IP} (h : ip ∈ family4 ips ++ family6 ips) : ip.parsedIp = ip := by
  obtain ⟨ip', -, rfl⟩ := List.mem_map.mp ((families_perm ips).mem_iff.mp h)
  exact parsedIp_parsedIp ip'

theorem filter_alternate_families (n : Nat) (prioritizeIPv6 : Bool) (ips : List IP) :
    (alternate n (firstFamily prioritizeIPv6 ips) (secondFamily prioritizeIPv6 ips)).filter IP.isIPv4 =
        family4 ips ∧
      ((alternate n (firstFamily prioritizeIPv6 ips) (secondFamily prioritizeIPv6 ips)).filter
        fun ip => !ip.isIPv4) = family6 ips := by
  have hfour : ∀ ip ∈ family4 ips, ip.isIPv4 = true := fun ip hip => (List.mem_filter.mp hip).2
  have hsix : ∀ ip ∈ family6 ips, (!ip.isIPv4) = true := fun ip hip => (List.mem_filter.mp hip).2
  cases prioritizeIPv6 with
  | false => exact filter_alternate _ _ _ hfour fun ip hip => by simpa using hsix ip hip
  | true =>
      obtain ⟨h6, h4⟩ := filter_alternate n (family6 ips) (family4 ips) hsix
        fun ip hip => by simpa using hfour ip hip
      simp only [Bool.not_not] at h4
      exact ⟨h4, h6⟩

end Families

theorem ordered_alternate (prioritizeIPv6 : Bool) (interleave : UInt32) (ips : List IP) :
    Ordered prioritizeIPv6 interleave ips
      (alternate (runLength interleave) (firstFamily prioritizeIPv6 ips) (secondFamily prioritizeIPv6 ips)) := by
  obtain ⟨h4, h6⟩ := filter_alternate_families (runLength interleave) prioritizeIPv6 ips
  obtain ⟨hfirst, hsecond⟩ := map_firstFamily prioritizeIPv6 ips
  generalize hsorted : alternate (runLength interleave) (firstFamily prioritizeIPv6 ips)
    (secondFamily prioritizeIPv6 ips) = sorted at h4 h6 ⊢
  have hperm := List.filter_append_perm IP.isIPv4 sorted
  rw [h4, h6] at hperm
  have hmap : sorted.map IP.parsedIp = sorted :=
    (List.map_congr_left fun ip hip => mem_families (hperm.mem_iff.mpr hip)).trans (List.map_id _)
  have hform : sorted.map IP.form =
      alternate (runLength interleave) (preferred prioritizeIPv6 ips) (unpreferred prioritizeIPv6 ips) := by
    rw [← map_parsedIp, hmap, ← hsorted, map_alternate, hfirst, hsecond]
  refine ⟨?_, ?_, ?_, fun _ _ => hform, fun _ _ hzero hfew => ?_⟩
  · rw [← map_parsedIp, ← map_parsedIp, hmap]
    exact (hperm.symm.trans (families_perm ips)).map _
  · rw [← (map_families _).1, ← (map_families _).1, family4, hmap, h4]
  · rw [← (map_families _).2, ← (map_families _).2, family6, hmap, h6]
  · rw [hform, alternate.eq_def, if_neg]
    rw [hzero, runLength, if_pos rfl]
    exact fun h => absurd h.1 hfew.le.not_gt

/-- **Addresses are tried in turns.** For all lists of addresses and settings the loop ends with a result, and it
has the order that is asked for. -/
theorem sortIPs_ordered (ips : List IP) (prioritizeIPv6 : Bool) (interleave : UInt32) :
    ∃ sorted, sortIPs ips prioritizeIPv6 interleave = .ok sorted ∧
      Ordered prioritizeIPv6 interleave ips sorted := by
  unfold sortIPs
  by_cases hone : (family4 ips).length = 0 ∨ (family6 ips).length = 0
  · have hone' : family4 ips = [] ∨ family6 ips = [] :=
      hone.imp List.length_eq_zero_iff.mp List.length_eq_zero_iff.mp
    have hnot : addresses4 ips ≠ [] → addresses6 ips ≠ [] → False := fun h4 h6 =>
      hone'.elim (fun hnil => h4 (by rw [← (map_families ips).1, hnil]; rfl)) fun hnil =>
        h6 (by rw [← (map_families ips).2, hnil]; rfl)
    refine ⟨ips, ?_, .refl _, rfl, rfl, fun h4 h6 => (hnot h4 h6).elim, fun h4 h6 => (hnot h4 h6).elim⟩
    rw [if_pos hone, ite_self]
  · have hcount := (families_perm ips).length_eq
    rw [List.length_append, List.length_map] at hcount
    obtain ⟨h4, h6⟩ := not_or.mp hone
    refine ⟨_, ?_, ordered_alternate prioritizeIPv6 interleave ips⟩
    rw [if_neg (by omega), if_neg hone, ← alternateFrom_self (runLength_pos interleave)]
    have hne4 : family4 ips ≠ [] := mt List.length_eq_zero_iff.mpr h4
    have hne6 : family6 ips ≠ [] := mt List.length_eq_zero_iff.mpr h6
    cases prioritizeIPv6 with
    | false =>
        exact loop_consume ⟨Nat.zero_le _, Nat.zero_le _, rfl, rfl⟩ hne4 hne6 (runLength_pos _) hcount.le
    | true =>
        have hfuel : (family6 ips).length + (family4 ips).length ≤ ips.length := by omega
        exact loop_consume ⟨Nat.zero_le _, Nat.zero_le _, rfl, rfl⟩ hne6 hne4 (runLength_pos _) hfuel

/-- An IPv4 address, its mapped form, and an IPv6 address. -/
def ip4 (n : UInt8) : IP := ⟨[10, 0, 0, n], .inl rfl⟩

def mapped (n : UInt8) : IP := ⟨[0, 0, 0, 0, 0, 0, 0, 0, 0, 0, 255, 255, 10, 0, 0, n], .inr rfl⟩

def ip6 (n : UInt8) : IP := ⟨[32, 1, 0, 0, 0, 0, 0, 0, 0, 0, 0, 0, 0, 0, 0, n], .inr rfl⟩

theorem sortIPs_interleaved :
    sortIPs [ip4 1, ip6 1, ip6 2, mapped 2, ip4 3, ip6 3, ip6 4] true 2 =
        .ok [ip6 1, ip6 2, ip4 1, ip4 2, ip6 3, ip6 4, ip4 3] ∧
      Ordered true 2 [ip4 1, ip6 1, ip6 2, mapped 2, ip4 3, ip6 3, ip6 4]
        [ip6 1, ip6 2, ip4 1, ip4 2, ip6 3, ip6 4, ip4 3] := by
  have hsorted : sortIPs [ip4 1, ip6 1, ip6 2, mapped 2, ip4 3, ip6 3, ip6 4] true 2 =
      .ok [ip6 1, ip6 2, ip4 1, ip4 2, ip6 3, ip6 4, ip4 3] := by decide +kernel
  obtain ⟨sorted, hsort, hordered⟩ := sortIPs_ordered [ip4 1, ip6 1, ip6 2, mapped 2, ip4 3, ip6 3, ip6 4] true 2
  obtain rfl := Except.ok.inj (hsorted.symm.trans hsort)
  exact ⟨hsorted, hordered⟩

end V2RootCore.Transport
