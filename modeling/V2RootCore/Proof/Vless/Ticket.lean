import V2RootCore.Vless.Ticket

/-!
# Tickets live as long as they should

Tickets are listed in the order of their times, and so in the order in which they expire. A minute that
is still to come has in `lasts` a ticket that is still in the list, so that the janitor, whichever
minutes it misses, deletes tickets that have expired and no others.
-/

namespace V2RootCore.Vless

open Go

section Minutes

theorem tdiv_sixty (x : Int) :
    (0 ≤ x → 60 * x.tdiv 60 ≤ x ∧ x < 60 * x.tdiv 60 + 60) ∧
      (x < 0 → x ≤ 60 * x.tdiv 60 ∧ 60 * x.tdiv 60 - 60 < x) := by
  refine ⟨fun h => ?_, fun h => ?_⟩
  · rw [Int.tdiv_eq_ediv_of_nonneg h]
    omega
  · obtain ⟨y, rfl⟩ : ∃ y, x = -y := ⟨-x, by omega⟩
    rw [Int.neg_tdiv, Int.tdiv_eq_ediv_of_nonneg (by omega)]
    omega

theorem toInt_minute (now : Int64) : (now / 60).toInt = now.toInt.tdiv 60 := by
  have hlow := now.le_toInt
  have hhigh := now.toInt_lt
  have htdiv := tdiv_sixty now.toInt
  rw [Int64.toInt_div, show (60 : Int64).toInt = 60 from rfl]
  refine Int.bmod_eq_of_le ?_ ?_ <;> omega

theorem minute_mono {first second : Int64} (h : first ≤ second) : first / 60 ≤ second / 60 := by
  have hfirst := tdiv_sixty first.toInt
  have hsecond := tdiv_sixty second.toInt
  rw [Int64.le_iff_toInt_le] at h ⊢
  rw [toInt_minute, toInt_minute]
  omega

theorem toInt_max (first second : Int64) :
    (max first second).toInt = max first.toInt second.toInt := by
  rw [show max first second = if first ≤ second then second else first from rfl]
  split_ifs with h
  · exact (max_eq_right (Int64.le_iff_toInt_le.mp h)).symm
  · exact (max_eq_left (le_of_not_ge fun hge => h (Int64.le_iff_toInt_le.mpr hge))).symm

/-- The minute in which the janitor deletes a ticket. -/
def expiry (lifetime now : Int64) : Int64 := (now + lifetime) / 60 + 2

theorem toInt_expiry {lifetime : Int64} (hpos : 0 < lifetime) (now : Int64) :
    ∃ sum : Int, (expiry lifetime now).toInt = sum.tdiv 60 + 2 ∧ -2 ^ 63 ≤ sum ∧
      (sum = now.toInt + lifetime.toInt ∨ (sum = now.toInt + lifetime.toInt - 2 ^ 64 ∧ sum < 0)) := by
  have hlow := now.le_toInt
  have hhigh := now.toInt_lt
  have hlifetime := lifetime.toInt_lt
  have hpos' : 0 < lifetime.toInt := Int64.lt_iff_toInt_lt.mp hpos
  have hsum := Int64.toInt_add now lifetime
  have hdiv := toInt_minute (now + lifetime)
  refine ⟨(now + lifetime).toInt, ?_, (now + lifetime).le_toInt, ?_⟩
  · have htdiv := tdiv_sixty (now + lifetime).toInt
    have hlow' := (now + lifetime).le_toInt
    have hhigh' := (now + lifetime).toInt_lt
    rw [expiry, Int64.toInt_add, hdiv, show (2 : Int64).toInt = 2 from rfl]
    refine Int.bmod_eq_of_le ?_ ?_ <;> omega
  · rw [hsum]
    by_cases hwrap : now.toInt + lifetime.toInt < 2 ^ 63
    · exact Or.inl (Int.bmod_eq_of_le (by omega) (by omega))
    · refine Or.inr ?_
      rw [← Int.sub_bmod_right, Int.bmod_eq_of_le (by omega) (by omega)]
      exact ⟨rfl, by omega⟩

variable {lifetime : Int64} (hpos : 0 < lifetime)

include hpos

theorem expiry_mono {first second : Int64} (h : first ≤ second) :
    expiry lifetime first ≤ expiry lifetime second ∨ expiry lifetime second < second / 60 := by
  obtain ⟨sum, hexpiry, hlow, hsum⟩ := toInt_expiry hpos first
  obtain ⟨sum', hexpiry', hlow', hsum'⟩ := toInt_expiry hpos second
  have htdiv := tdiv_sixty sum
  have htdiv' := tdiv_sixty sum'
  have hminute := tdiv_sixty second.toInt
  have hhigh := second.toInt_lt
  have hlifetime := lifetime.toInt_lt
  have hfirst := first.le_toInt
  have hpos' : 0 < lifetime.toInt := Int64.lt_iff_toInt_lt.mp hpos
  rw [Int64.le_iff_toInt_le] at h
  rw [Int64.le_iff_toInt_le, Int64.lt_iff_toInt_lt, hexpiry, hexpiry', toInt_minute]
  omega

theorem le_of_expiry_eq {first now : Int64} (h : first ≤ now) (heq : expiry lifetime first = now / 60) :
    first.toInt + lifetime.toInt ≤ now.toInt := by
  obtain ⟨sum, hexpiry, hlow, hsum⟩ := toInt_expiry hpos first
  have htdiv := tdiv_sixty sum
  have hminute := tdiv_sixty now.toInt
  have hhigh := first.toInt_lt
  have hlifetime := lifetime.toInt_lt
  have hpos' : 0 < lifetime.toInt := Int64.lt_iff_toInt_lt.mp hpos
  rw [Int64.le_iff_toInt_le] at h
  rw [heq, toInt_minute] at hexpiry
  omega

end Minutes

namespace ServerInstance

theorem sweep_append {last : Ticket} {before : List Ticket} (after : List Ticket)
    (hlast : last ∉ before) (sessions : Ticket → Option Bytes) :
    sweep last (before ++ last :: after) sessions =
      (some after, fun ticket => if ticket ∈ before ∨ ticket = last then none else sessions ticket) := by
  induction before generalizing sessions with
  | nil =>
      simp only [List.nil_append, sweep, if_true, Prod.mk.injEq, true_and]
      funext ticket
      by_cases heq : ticket = last <;> simp [heq]
  | cons first before ih =>
      have hne : first ≠ last := fun heq => hlast (heq ▸ List.mem_cons_self)
      have hrest : last ∉ before := fun hmem => hlast (List.mem_cons_of_mem _ hmem)
      simp only [List.cons_append, sweep, hne, if_false, ih hrest, Prod.mk.injEq, true_and]
      funext ticket
      by_cases heq : ticket = first
      · simp [heq]
      · simp [heq, List.mem_cons]

end ServerInstance

namespace TicketStore

open ServerInstance

/-- The state of a store whose tickets, with their times, are `entries`. -/
structure Holds (lifetime : Int64) (st : TicketStore) (entries : List (Ticket × Int64)) : Prop where
  lifetime_eq : st.server.lifetime = lifetime
  tickets : st.server.tickets = entries.map Prod.fst
  nodup : (entries.map Prod.fst).Nodup
  sessions : ∀ ticket, (st.server.sessions ticket).isSome ↔ ticket ∈ entries.map Prod.fst
  ordered : entries.Pairwise fun first second => first.2 ≤ second.2
  past : ∀ entry ∈ entries, entry.2 ≤ st.clock
  issued : ∀ entry ∈ entries, entry ∈ st.issued
  lived : ∀ entry ∈ st.issued, entry ∈ entries ∨
    entry.2.toInt + lifetime.toInt ≤ st.clock.toInt
  lasts : ∀ minute last, st.clock / 60 ≤ minute → st.server.lasts minute = some last →
    ∃ time, (last, time) ∈ entries ∧ expiry lifetime time = minute

section Step

variable {lifetime : Int64} {st : TicketStore} {entries : List (Ticket × Int64)}
  (h : Holds lifetime st entries)

include h

theorem Holds.later {now : Int64} (hnow : st.clock ≤ now) :
    Holds lifetime { st with clock := now } entries where
  lifetime_eq := h.lifetime_eq
  tickets := h.tickets
  nodup := h.nodup
  sessions := h.sessions
  ordered := h.ordered
  past entry hentry := Int64.le_trans (h.past entry hentry) hnow
  issued := h.issued
  lived entry hentry := by
    have hle := Int64.le_iff_toInt_le.mp hnow
    obtain hmem | hlived := h.lived entry hentry
    · exact Or.inl hmem
    · exact Or.inr (by simp only; omega)
  lasts minute last hminute := h.lasts minute last (Int64.le_trans (minute_mono hnow) hminute)

theorem Holds.issue {now : Int64} (hnow : st.clock ≤ now) {ticket : Ticket}
    (hfresh : ticket ∉ st.issued.map Prod.fst) (pfsKey : Bytes) {seconds : Int64}
    (hseconds : 0 < seconds) :
    Holds lifetime
      { server := st.server.issue now seconds ticket pfsKey
        clock := now
        issued := st.issued ++ [(ticket, now)] } (entries ++ [(ticket, now)]) := by
  have hlater := h.later hnow
  have hnew : ticket ∉ entries.map Prod.fst := by
    intro hmem
    obtain ⟨entry, hentry, rfl⟩ := List.mem_map.mp hmem
    exact hfresh (List.mem_map_of_mem (h.issued entry hentry))
  constructor
  · rw [← h.lifetime_eq]
    simp [ServerInstance.issue, hseconds, ServerInstance.lifetime]
  · simp [ServerInstance.issue, hseconds, h.tickets]
  · rw [List.map_append, List.map_singleton]
    exact h.nodup.append (List.nodup_singleton _) (List.disjoint_singleton.mpr hnew)
  · intro other
    by_cases heq : other = ticket
    · simp [ServerInstance.issue, hseconds, heq]
    · simpa [ServerInstance.issue, hseconds, heq] using h.sessions other
  · rw [List.pairwise_append]
    refine ⟨h.ordered, List.pairwise_singleton _ _, fun entry hentry last hlast => ?_⟩
    rw [List.mem_singleton.mp hlast]
    exact hlater.past entry hentry
  · intro entry hentry
    obtain hold | hlast := List.mem_append.mp hentry
    · exact hlater.past entry hold
    · rw [List.mem_singleton.mp hlast]
      exact Int64.le_refl _
  · intro entry hentry
    obtain hold | hlast := List.mem_append.mp hentry
    · exact List.mem_append_left _ (h.issued entry hold)
    · exact List.mem_append_right _ hlast
  · intro entry hentry
    obtain hold | hlast := List.mem_append.mp hentry
    · obtain hmem | hlived := hlater.lived entry hold
      · exact Or.inl (List.mem_append_left _ hmem)
      · exact Or.inr hlived
    · exact Or.inl (List.mem_append_right _ hlast)
  · intro minute last hminute hlast
    have hkey : (now + st.server.lifetime) / 60 + 2 = expiry lifetime now := by rw [h.lifetime_eq, expiry]
    simp only [ServerInstance.issue, hseconds, if_true, hkey] at hlast
    by_cases heq : minute = expiry lifetime now
    · obtain rfl : ticket = last := by simpa [heq] using hlast
      exact ⟨now, List.mem_append_right _ (List.mem_singleton_self _), heq.symm⟩
    · obtain ⟨time, hmem, htime⟩ := hlater.lasts minute last hminute (by simpa [heq] using hlast)
      exact ⟨time, List.mem_append_left _ hmem, htime⟩

theorem Holds.forget {lasts : Int64 → Option Ticket}
    (hlasts : ∀ minute last, lasts minute = some last → st.server.lasts minute = some last) :
    Holds lifetime { st with server := { st.server with lasts } } entries where
  lifetime_eq := h.lifetime_eq
  tickets := h.tickets
  nodup := h.nodup
  sessions := h.sessions
  ordered := h.ordered
  past := h.past
  issued := h.issued
  lived := h.lived
  lasts minute last hminute hlast := h.lasts minute last hminute (hlasts minute last hlast)

theorem Holds.janitor (hpos : 0 < lifetime) {now : Int64} (hnow : st.clock ≤ now) :
    ∃ entries', Holds lifetime { st with server := st.server.janitor now, clock := now } entries' := by
  by_cases hclosed : st.server.closed
  · exact ⟨entries, by simpa [ServerInstance.janitor, hclosed] using h.later hnow⟩
  have hlater := h.later hnow
  have hforget (minute : Int64) (last : Ticket)
      (hlast : Function.update (Function.update st.server.lasts (now / 60) none) (now / 60 - 1) none
        minute = some last) : minute ≠ now / 60 ∧ st.server.lasts minute = some last := by
    by_cases hprev : minute = now / 60 - 1
    · simp [hprev] at hlast
    · by_cases hthis : minute = now / 60
      · rw [Function.update_of_ne hprev, hthis, Function.update_self] at hlast
        cases hlast
      · exact ⟨hthis, by simpa [hprev, hthis] using hlast⟩
  have hdeleted := hlater.forget fun minute last hlast => (hforget minute last hlast).2
  by_cases hzero : (st.server.lasts (now / 60)).getD zeroTicket = zeroTicket
  · exact ⟨entries, by simpa [ServerInstance.janitor, hclosed, hzero] using hdeleted⟩
  obtain ⟨last, hlast⟩ : ∃ last, st.server.lasts (now / 60) = some last := by
    cases hcase : st.server.lasts (now / 60) with
    | none => exact absurd (by simp [hcase]) hzero
    | some last => exact ⟨last, rfl⟩
  obtain ⟨time, hmem, htime⟩ := hlater.lasts _ last (Int64.le_refl _) hlast
  obtain ⟨before, after, rfl⟩ := List.append_of_mem hmem
  have hbefore : ∀ entry ∈ before, entry.2 ≤ time := fun entry hentry =>
    (List.pairwise_append.mp h.ordered).2.2 entry hentry _ List.mem_cons_self
  have hnodup := h.nodup
  rw [List.map_append, List.map_cons, List.nodup_append, List.nodup_cons] at hnodup
  obtain ⟨-, ⟨hafter, hnodup⟩, hdisjoint⟩ := hnodup
  have hnot : last ∉ before.map Prod.fst := fun hmem => hdisjoint _ hmem _ List.mem_cons_self rfl
  have hover : ∀ entry ∈ before ++ [(last, time)], entry.2 ≤ time := by
    intro entry hentry
    obtain hentry | hentry := List.mem_append.mp hentry
    · exact hbefore entry hentry
    · rw [List.mem_singleton.mp hentry]
      exact Int64.le_refl _
  have htimes : time ≤ now := hlater.past _ hmem
  have hend := le_of_expiry_eq hpos htimes htime
  have hsweep : st.server.janitor now =
      { st.server with
        lasts := Function.update (Function.update st.server.lasts (now / 60) none) (now / 60 - 1) none
        tickets := after.map Prod.fst
        sessions := fun ticket => if ticket ∈ before.map Prod.fst ∨ ticket = last then none
          else st.server.sessions ticket } := by
    have hswept := sweep_append (after.map Prod.fst) hnot st.server.sessions
    rw [hlast, Option.getD_some] at hzero
    simp [ServerInstance.janitor, hclosed, hlast, hzero, h.tickets, hswept]
  have hsub : after.Sublist (before ++ (last, time) :: after) :=
    (List.sublist_cons_self _ _).trans (List.sublist_append_right _ _)
  rw [hsweep]
  refine ⟨after, h.lifetime_eq, rfl, hnodup, ?_, h.ordered.sublist hsub,
    fun entry hentry => hlater.past entry (hsub.subset hentry),
    fun entry hentry => h.issued entry (hsub.subset hentry), ?_, ?_⟩
  · intro ticket
    have hsessions := h.sessions ticket
    rw [List.map_append, List.map_cons, List.mem_append, List.mem_cons] at hsessions
    by_cases hgone : ticket ∈ before.map Prod.fst ∨ ticket = last
    · simp only [hgone, if_true, Option.isSome_none, Bool.false_eq_true, false_iff]
      intro hkept
      obtain hgone | rfl := hgone
      · exact hdisjoint _ hgone _ (List.mem_cons_of_mem _ hkept) rfl
      · exact hafter hkept
    · simp only [hgone, if_false, hsessions]
      tauto
  · intro entry hentry
    obtain hmem | hlived := hlater.lived entry hentry
    · rw [← List.singleton_append, ← List.append_assoc, List.mem_append] at hmem
      obtain hmem | hmem := hmem
      · refine Or.inr ?_
        have hle := Int64.le_iff_toInt_le.mp (hover entry hmem)
        simp only
        omega
      · exact Or.inl hmem
    · exact Or.inr hlived
  · intro minute other hminute hother
    obtain ⟨hne, hother⟩ := hforget minute other hother
    obtain ⟨time', hmem, htime'⟩ := hlater.lasts minute other hminute hother
    rw [← List.singleton_append, ← List.append_assoc, List.mem_append] at hmem
    obtain hmem | hmem := hmem
    · -- It would expire no later than the last ticket of this minute.
      exfalso
      obtain hle | hlt := expiry_mono hpos (hover _ hmem)
      · rw [htime', htime] at hle
        exact hne (Int64.le_antisymm hle hminute)
      · rw [htime] at hlt
        exact Int64.lt_irrefl (Int64.lt_of_lt_of_le hlt (minute_mono htimes))
    · exact ⟨time', hmem, htime'⟩

theorem Holds.step (hpos : 0 < lifetime) (event : Event) (hregular : st.Regular event) :
    ∃ entries', Holds lifetime (st.step event) entries' := by
  obtain ⟨hnow, hfresh⟩ := hregular
  cases event with
  | issue now random ticket pfsKey =>
      replace hnow : st.clock ≤ now := hnow
      by_cases hseconds : 0 < st.server.seconds random
      · have hissue := h.issue hnow hfresh pfsKey hseconds
        exact ⟨_, by simpa [TicketStore.step, hseconds] using hissue⟩
      · have hlater := h.later hnow
        exact ⟨entries, by simpa [TicketStore.step, hseconds, ServerInstance.issue] using hlater⟩
  | janitor now => exact h.janitor hpos hnow
  | close now =>
      have hlater := h.later hnow
      exact ⟨entries, ⟨hlater.lifetime_eq, hlater.tickets, hlater.nodup, hlater.sessions,
        hlater.ordered, hlater.past, hlater.issued, hlater.lived, hlater.lasts⟩⟩

end Step

/-- **The ticket store.** A server with a positive lifetime of tickets issues distinct tickets, and its
janitor passes at any times that do not go back. After each event the tickets with a session are those
in the list, and a ticket that was issued and has no session was issued longer ago than its lifetime. -/
theorem tickets_live (secondsFrom secondsTo : Int64) (hpositive : 0 < secondsFrom ∨ 0 < secondsTo)
    (events : List Event)
    (hregular : Transition.Along TicketStore.step Regular
      { server := { secondsFrom, secondsTo } } events) :
    (∀ ticket, ((run { server := { secondsFrom, secondsTo } } events).server.sessions ticket).isSome ↔
      ticket ∈ (run { server := { secondsFrom, secondsTo } } events).server.tickets) ∧
    ∀ ticket time, (ticket, time) ∈ (run { server := { secondsFrom, secondsTo } } events).issued →
      (run { server := { secondsFrom, secondsTo } } events).server.sessions ticket = none →
      time.toInt + max secondsFrom.toInt secondsTo.toInt ≤
        (run { server := { secondsFrom, secondsTo } } events).clock.toInt := by
  have hpos : 0 < max secondsFrom secondsTo := by
    have hmax := toInt_max secondsFrom secondsTo
    rw [Int64.lt_iff_toInt_lt] at hpositive ⊢
    rw [Int64.lt_iff_toInt_lt] at hpositive
    rw [hmax]
    omega
  have hstart : ∃ entries, Holds (max secondsFrom secondsTo)
      { server := { secondsFrom, secondsTo } } entries :=
    ⟨[], rfl, rfl, List.nodup_nil, by simp, List.Pairwise.nil, nofun, nofun, nofun, nofun⟩
  have hstep (st : TicketStore) (event : Event)
      (h : ∃ entries, Holds (max secondsFrom secondsTo) st entries) (hevent : st.Regular event) :
      ∃ entries, Holds (max secondsFrom secondsTo) (st.step event) entries := by
    obtain ⟨entries, h⟩ := h
    exact h.step hpos event hevent
  obtain ⟨entries, h⟩ := Transition.run_induction_along hstep events _ hstart hregular
  rw [← run] at h
  generalize run { server := { secondsFrom, secondsTo } } events = st at h ⊢
  refine ⟨fun ticket => by rw [h.tickets, h.sessions], fun ticket time hissued hnone => ?_⟩
  obtain hmem | hlived := h.lived _ hissued
  · have hsome := (h.sessions ticket).mpr (List.mem_map_of_mem hmem)
    simp [hnone] at hsome
  · rwa [toInt_max] at hlived

def lateJanitor : List Event :=
  [.issue 0 600 (List.Vector.replicate 16 1) [1], .issue 60 600 (List.Vector.replicate 16 2) [2],
    .janitor 659, .janitor 780]

theorem tickets_live_lateJanitor :
    (run { server := { secondsFrom := 300, secondsTo := 600 } } lateJanitor).server.tickets = [] ∧
      ∀ ticket time, (ticket, time) ∈
          (run { server := { secondsFrom := 300, secondsTo := 600 } } lateJanitor).issued →
        (run { server := { secondsFrom := 300, secondsTo := 600 } } lateJanitor).server.sessions ticket =
          none → time.toInt + 600 ≤ 780 :=
  ⟨by decide +kernel, (tickets_live 300 600 (by decide) lateJanitor (by decide +kernel)).2⟩

end TicketStore

end V2RootCore.Vless
