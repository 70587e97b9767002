import V2RootCore.Transport.Pipe

/-!
# A pipe delivers what it has stored

What was returned and what is in the pipe are together what was stored, unless the pipe has been
interrupted; then it is a beginning of that.
-/

namespace V2RootCore.Transport

open Go Buf Transition

variable {ρ : Type} {P : MultiBuffer ρ → Prop} {st st' : System ρ}

/-- Nothing will come any more. -/
def Drained (st : System ρ) : Prop := st.pipe.state = .closed ∧ st.pipe.content.isEmpty = true

inductive Change (P : MultiBuffer ρ → Prop) (st st' : System ρ) : Prop where
  | quiet (hdata : st'.pipe.data = st.pipe.data) (hstate : st'.pipe.state = st.pipe.state)
      (hstored : st'.stored = st.stored)
      (hresults : st'.results = st.results ∨ ∃ err, st'.results = st.results ++ [.error err] ∧
        (err = .eof → Drained st ∨ st.pipe.errChan = some .eof))
  | stores (mb : MultiBuffer ρ) (hmb : P mb) (hopen : st.pipe.state = .opened)
      (hroom : st.pipe.option.isFull (len32 st.pipe.content) = false)
      (hdata : st'.pipe.data = some (st.pipe.content ++ mb)) (hstate : st'.pipe.state = .opened)
      (hstored : st'.stored = st.stored ++ [mb]) (hresults : st'.results = st.results)
  | reads (data : MultiBuffer ρ) (hstate : st.pipe.state ≠ .errord)
      (hbefore : st.pipe.data = some data) (hdata : st'.pipe.data = none)
      (hsame : st'.pipe.state = st.pipe.state) (hstored : st'.stored = st.stored)
      (hresults : st'.results = st.results ++ [.ok data])
  | closes (hopen : st.pipe.state = .opened) (hdata : st'.pipe.data = st.pipe.data)
      (hstate : st'.pipe.state = .closed) (hstored : st'.stored = st.stored)
      (hresults : st'.results = st.results)
  | interrupts (hdata : st'.pipe.data = none ∨
        st'.pipe.data = st.pipe.data ∧ st.pipe.content.isEmpty = true)
      (hstate : st'.pipe.state = .errord)
      (hstored : st'.stored = st.stored) (hresults : st'.results = st.results)

theorem change_refl (st : System ρ) : Change P st st := .quiet rfl rfl rfl (.inl rfl)

theorem Change.of_signals {readSignal writeSignal : Bool}
    (h : Change P { st with pipe := { st.pipe with readSignal, writeSignal } } st') :
    Change P st st' := by
  cases h with
  | quiet hdata hstate hstored hresults => exact .quiet hdata hstate hstored hresults
  | stores mb hmb hopen hroom hdata hstate hstored hresults =>
      exact .stores mb hmb hopen hroom hdata hstate hstored hresults
  | reads data hstate hbefore hdata hsame hstored hresults =>
      exact .reads data hstate hbefore hdata hsame hstored hresults
  | closes hopen hdata hstate hstored hresults => exact .closes hopen hdata hstate hstored hresults
  | interrupts hdata hstate hstored hresults => exact .interrupts hdata hstate hstored hresults

theorem getState_write_eq_none_iff {p : Pipe ρ} : p.getState false = none ↔
    p.state = .opened ∧ p.option.isFull (len32 p.content) = false := by
  rw [Pipe.getState]
  cases p.state <;> simp

theorem getState_write_ne {p : Pipe ρ} : p.getState false ≠ some errSlowDown := by
  have hfull : errBufferFull ≠ errSlowDown := by decide
  have hclosed : Error.closedPipe ≠ errSlowDown := by decide
  rw [Pipe.getState]
  cases p.state
  · simp only [Bool.false_eq_true, not_false_eq_true, true_and]
    split_ifs
    · simpa using hfull
    · simp
  · simpa using hclosed
  · simpa using hclosed

theorem getState_read {p : Pipe ρ} : (p.getState true = none ∧ p.state ≠ .errord) ∨
    ∃ err, p.getState true = some err ∧
      (err = .eof → p.state = .closed ∧ p.content.isEmpty = true) := by
  rw [Pipe.getState]
  cases p.state
  · simp
  · by_cases hempty : p.content.isEmpty = true <;> simp [hempty]
  · simp

theorem change_attemptWrite (st : System ρ) (writer : Nat) {mb : MultiBuffer ρ} (hmb : P mb) :
    Change P st (st.attemptWrite writer mb) := by
  rw [System.attemptWrite, Pipe.writeMultiBufferInternal]
  cases hget : st.pipe.getState false with
  | some err =>
      have hne : err ≠ errSlowDown := fun heq => getState_write_ne (heq ▸ hget)
      have hquiet : ∀ pipe writing, pipe.data = st.pipe.data → pipe.state = st.pipe.state →
          Change P st { st with pipe, writing } := fun pipe writing hdata hstate =>
        .quiet hdata hstate rfl (.inl rfl)
      simp only [Option.some.injEq, hne, reduceCtorEq, or_self, if_false]
      split_ifs
      all_goals exact hquiet _ _ rfl rfl
  | none =>
      obtain ⟨hopen, hroom⟩ := getState_write_eq_none_iff.mp hget
      cases hdata : st.pipe.data with
      | none =>
          refine .stores mb hmb hopen hroom ?_ hopen rfl rfl
          simp [Pipe.content, hdata]
      | some data =>
          refine .stores mb hmb hopen hroom ?_ hopen rfl rfl
          simp [Pipe.content, hdata]

theorem change_attemptRead (st : System ρ) : Change P st st.attemptRead := by
  rw [System.attemptRead, Pipe.readMultiBufferInternal]
  obtain ⟨hget, hstate⟩ | ⟨err, hget, heof⟩ := getState_read (p := st.pipe)
  · rw [hget]
    cases hdata : st.pipe.data with
    | none => exact .quiet hdata.symm rfl rfl (.inl rfl)
    | some data => exact .reads data hstate hdata rfl rfl rfl rfl
  · rw [hget]
    exact .quiet rfl rfl rfl (.inr ⟨err, rfl, fun heq => .inl (heof heq)⟩)

def Waiting (P : MultiBuffer ρ → Prop) (st : System ρ) : Prop :=
  ∀ writer mb, st.writing writer = some mb → P mb

def Writes (P : MultiBuffer ρ → Prop) (event : Event ρ) : Prop :=
  ∀ writer mb, event = .write writer mb → mb.isEmpty = false → P mb

theorem change_step (hwaiting : Waiting P st) {event : Event ρ} (hwrites : Writes P event) :
    Change P st (step st event) := by
  cases event with
  | write writer mb =>
      rw [step, System.write]
      split_ifs with hskip
      · exact change_refl st
      · rw [not_or, Bool.not_eq_true] at hskip
        exact change_attemptWrite st writer (hwrites writer mb rfl hskip.2)
  | retry writer =>
      rw [step, System.retry]
      split
      · rename_i mb hmb
        split_ifs
        · exact (change_attemptWrite _ writer (hwaiting writer mb hmb)).of_signals
        · exact change_refl st
      · exact change_refl st
  | giveUp writer =>
      rw [step]
      split_ifs
      · exact .quiet rfl rfl rfl (.inl rfl)
      · exact change_refl st
  | read =>
      rw [step]
      split_ifs
      · exact change_refl st
      · exact change_attemptRead st
  | signalled =>
      rw [step]
      split_ifs
      · exact (change_attemptRead _).of_signals
      · exact change_refl st
  | finished =>
      rw [step]
      split_ifs
      · exact change_attemptRead st
      · exact change_refl st
  | failed =>
      rw [step]
      split
      · rename_i err herr
        split_ifs
        · exact .quiet rfl rfl rfl (.inr ⟨err, rfl, fun heq => .inr (heq ▸ herr)⟩)
        · exact change_refl st
      · exact change_refl st
  | timeout =>
      rw [step]
      split_ifs
      · exact .quiet rfl rfl rfl (.inr ⟨_, rfl, fun heq => by simp [errReadTimeout] at heq⟩)
      · exact change_refl st
  | close =>
      rw [step, Pipe.close]
      split_ifs with hstate
      · exact change_refl st
      · refine .closes ?_ rfl rfl rfl rfl
        cases hopen : st.pipe.state <;> simp_all
  | interrupt =>
      rw [step, Pipe.interrupt]
      by_cases hempty : st.pipe.content.isEmpty = true
      · rw [if_pos hempty]
        split_ifs
        · exact change_refl st
        · exact .interrupts (.inr ⟨rfl, hempty⟩) rfl rfl rfl
      · rw [if_neg hempty]
        refine .interrupts (.inl ?_) ?_ ?_ ?_ <;> split_ifs with hclosed hstate <;> simp_all
  | returnAnError err =>
      rw [step]
      split_ifs
      · exact .quiet rfl rfl rfl (.inl rfl)
      · exact change_refl st
  | recover => exact .quiet rfl rfl rfl (.inl rfl)

theorem waiting_update (hwaiting : Waiting P st) (writer : Nat) {writes : Option (MultiBuffer ρ)}
    (hwrites : ∀ mb, writes = some mb → P mb) :
    Waiting P { st with writing := Function.update st.writing writer writes } := by
  intro writer' mb hwriting
  by_cases hsame : writer' = writer
  · subst hsame
    exact hwrites mb (by simpa using hwriting)
  · exact hwaiting writer' mb (by simpa [hsame] using hwriting)

theorem waiting_attemptWrite (hwaiting : Waiting P st) (writer : Nat) {mb : MultiBuffer ρ}
    (hmb : P mb) : Waiting P (st.attemptWrite writer mb) := by
  have hnone : Waiting P { st with writing := Function.update st.writing writer none } :=
    waiting_update hwaiting writer (by simp)
  have hsome : Waiting P { st with writing := Function.update st.writing writer (some mb) } :=
    waiting_update hwaiting writer (by simpa using hmb)
  rw [System.attemptWrite]
  simp only
  split_ifs
  · exact hnone
  · exact hnone
  · exact hnone
  · exact hsome

theorem waiting_attemptRead (hwaiting : Waiting P st) : Waiting P st.attemptRead := by
  rw [System.attemptRead]
  split <;> exact hwaiting

theorem waiting_step (hwaiting : Waiting P st) {event : Event ρ} (hwrites : Writes P event) :
    Waiting P (step st event) := by
  cases event with
  | write writer mb =>
      rw [step, System.write]
      split_ifs with hskip
      · exact hwaiting
      · rw [not_or, Bool.not_eq_true] at hskip
        exact waiting_attemptWrite hwaiting writer (hwrites writer mb rfl hskip.2)
  | retry writer =>
      rw [step, System.retry]
      split
      · rename_i mb hmb
        split_ifs
        · exact waiting_attemptWrite
            (show Waiting P { st with pipe := { st.pipe with writeSignal := false } } from hwaiting)
            writer (hwaiting writer mb hmb)
        · exact hwaiting
      · exact hwaiting
  | giveUp writer =>
      rw [step]
      split_ifs
      · exact waiting_update hwaiting writer (by simp)
      · exact hwaiting
  | read =>
      rw [step]
      split_ifs
      · exact hwaiting
      · exact waiting_attemptRead hwaiting
  | signalled =>
      rw [step]
      split_ifs
      · exact waiting_attemptRead hwaiting
      · exact hwaiting
  | finished =>
      rw [step]
      split_ifs
      · exact waiting_attemptRead hwaiting
      · exact hwaiting
  | failed =>
      rw [step]
      split
      · split_ifs <;> exact hwaiting
      · exact hwaiting
  | timeout =>
      rw [step]
      split_ifs <;> exact hwaiting
  | close => exact hwaiting
  | interrupt => exact hwaiting
  | returnAnError err =>
      rw [step]
      split_ifs <;> exact hwaiting
  | recover => exact hwaiting

theorem attemptWrite_keeps (st : System ρ) (writer : Nat) (mb : MultiBuffer ρ) :
    (st.attemptWrite writer mb).pipe.option = st.pipe.option ∧
      (st.attemptWrite writer mb).pipe.errChan = st.pipe.errChan := by
  have hpipe : (st.pipe.writeMultiBufferInternal mb).2.option = st.pipe.option ∧
      (st.pipe.writeMultiBufferInternal mb).2.errChan = st.pipe.errChan := by
    rw [Pipe.writeMultiBufferInternal]
    split
    · exact ⟨rfl, rfl⟩
    · split <;> exact ⟨rfl, rfl⟩
  rw [System.attemptWrite]
  simp only
  split_ifs <;> exact hpipe

theorem attemptRead_keeps (st : System ρ) : st.attemptRead.pipe.option = st.pipe.option ∧
    st.attemptRead.pipe.errChan = st.pipe.errChan := by
  rw [System.attemptRead, Pipe.readMultiBufferInternal]
  cases st.pipe.getState true with
  | some err => exact ⟨rfl, rfl⟩
  | none => cases st.pipe.data <;> exact ⟨rfl, rfl⟩

theorem step_keeps (st : System ρ) (event : Event ρ) :
    (step st event).pipe.option = st.pipe.option ∧
      ((∀ err, event ≠ .returnAnError err) → st.pipe.errChan = none →
        (step st event).pipe.errChan = none) := by
  have hkeeps {pipe : Pipe ρ} (h : pipe.option = st.pipe.option ∧ pipe.errChan = st.pipe.errChan) :
      pipe.option = st.pipe.option ∧ ((∀ err, event ≠ .returnAnError err) →
        st.pipe.errChan = none → pipe.errChan = none) := ⟨h.1, fun _ hnone => h.2.trans hnone⟩
  have hsame := hkeeps ⟨rfl, rfl⟩
  cases event with
  | write writer mb =>
      rw [step, System.write]
      split_ifs
      · exact hsame
      · exact hkeeps (attemptWrite_keeps st writer mb)
  | retry writer =>
      rw [step, System.retry]
      split
      · rename_i mb hmb
        split_ifs
        · exact hkeeps (attemptWrite_keeps _ writer mb)
        · exact hsame
      · exact hsame
  | giveUp writer =>
      rw [step]
      split_ifs <;> exact hsame
  | read =>
      rw [step]
      split_ifs
      · exact hsame
      · exact hkeeps (attemptRead_keeps st)
  | signalled =>
      rw [step]
      split_ifs
      · exact hkeeps (attemptRead_keeps _)
      · exact hsame
  | finished =>
      rw [step]
      split_ifs
      · exact hkeeps (attemptRead_keeps st)
      · exact hsame
  | failed =>
      rw [step]
      split
      · split_ifs
        · exact ⟨rfl, fun _ _ => rfl⟩
        · exact hsame
      · exact hsame
  | timeout =>
      rw [step]
      split_ifs <;> exact hsame
  | close =>
      rw [step, Pipe.close]
      split_ifs <;> exact hsame
  | interrupt =>
      rw [step, Pipe.interrupt]
      by_cases hempty : st.pipe.content.isEmpty = true
      · rw [if_pos hempty]
        split_ifs <;> exact hsame
      · rw [if_neg hempty]
        dsimp only
        split_ifs <;> exact hsame
  | returnAnError err =>
      refine ⟨?_, fun hother => absurd rfl (hother err)⟩
      rw [step]
      split_ifs <;> rfl
  | recover => exact ⟨rfl, fun _ _ => rfl⟩

section Invariants

theorem returned_of_ok {data : MultiBuffer ρ} (h : st'.results = st.results ++ [.ok data]) :
    st'.returned = st.returned ++ [data] := by
  rw [System.returned, h, List.filterMap_append]
  rfl

theorem returned_of_error
    (h : st'.results = st.results ∨ ∃ err, st'.results = st.results ++ [.error err]) :
    st'.returned = st.returned := by
  obtain h | ⟨err, h⟩ := h
  · rw [System.returned, h, System.returned]
  · rw [System.returned, h, List.filterMap_append, System.returned]
    exact List.append_nil _

theorem content_of_none {p : Pipe ρ} (h : p.data = none) : p.content = [] := by
  rw [Pipe.content, h, Option.getD_none]

theorem content_of_some {p : Pipe ρ} {data : MultiBuffer ρ} (h : p.data = some data) :
    p.content = data := by
  rw [Pipe.content, h, Option.getD_some]

structure Flows (st : System ρ) : Prop where
  data_ne : ∀ data, st.pipe.data = some data → data.isEmpty = false
  returned_front : st.returned.flatten ++ st.pipe.content <+: st.stored.flatten
  returned_eq : st.pipe.state ≠ .errord →
    st.returned.flatten ++ st.pipe.content = st.stored.flatten

theorem Flows.content_eq_nil (h : Flows st) (hempty : st.pipe.content.isEmpty = true) :
    st.pipe.content = [] := by
  cases hdata : st.pipe.data with
  | none => exact content_of_none hdata
  | some data =>
      rw [content_of_some hdata, h.data_ne data hdata] at hempty
      cases hempty

theorem Flows.change (h : Flows st) (hchange : Change (fun mb => mb.isEmpty = false) st st') :
    Flows st' := by
  cases hchange with
  | quiet hdata hstate hstored hresults =>
      have hreturned := returned_of_error (hresults.imp_right fun ⟨err, herr⟩ => ⟨err, herr.1⟩)
      have hcontent : st'.pipe.content = st.pipe.content := congrArg (Option.getD · []) hdata
      refine ⟨hdata ▸ h.data_ne, ?_, ?_⟩
      · rw [hreturned, hcontent, hstored]
        exact h.returned_front
      · rw [hreturned, hcontent, hstored, hstate]
        exact h.returned_eq
  | stores mb hmb hopen hroom hdata hstate hstored hresults =>
      have hreturned := returned_of_error (.inl hresults)
      have hall : st'.returned.flatten ++ st'.pipe.content = st'.stored.flatten := by
        rw [hreturned, hstored, content_of_some hdata, List.flatten_append, ← List.append_assoc,
          h.returned_eq (by rw [hopen]; decide), List.flatten_singleton]
      refine ⟨fun data hsome => ?_, hall ▸ List.prefix_refl _, fun _ => hall⟩
      obtain rfl := Option.some.inj (hdata.symm.trans hsome)
      simp only [MultiBuffer.isEmpty, List.all_append, Bool.and_eq_false_iff] at hmb ⊢
      exact .inr hmb
  | reads data hstate hbefore hdata hsame hstored hresults =>
      have hreturned := returned_of_ok hresults
      have hall : st'.returned.flatten ++ st'.pipe.content = st'.stored.flatten := by
        rw [hreturned, hstored, content_of_none hdata, List.flatten_append, List.flatten_singleton,
          List.append_nil, ← content_of_some hbefore]
        exact h.returned_eq hstate
      exact ⟨by simp [hdata], hall ▸ List.prefix_refl _, fun _ => hall⟩
  | closes hopen hdata hstate hstored hresults =>
      have hreturned := returned_of_error (.inl hresults)
      have hcontent : st'.pipe.content = st.pipe.content := congrArg (Option.getD · []) hdata
      have hall : st'.returned.flatten ++ st'.pipe.content = st'.stored.flatten := by
        rw [hreturned, hcontent, hstored]
        exact h.returned_eq (by rw [hopen]; decide)
      exact ⟨hdata ▸ h.data_ne, hall ▸ List.prefix_refl _, fun _ => hall⟩
  | interrupts hdata hstate hstored hresults =>
      have hreturned := returned_of_error (.inl hresults)
      have hcontent : st'.pipe.content = [] := by
        obtain hnone | ⟨hsame, hempty⟩ := hdata
        · exact content_of_none hnone
        · rw [Pipe.content, hsame]
          exact h.content_eq_nil hempty
      refine ⟨fun data hsome => ?_, ?_, fun hne => absurd hstate hne⟩
      · obtain hnone | ⟨hsame, hempty⟩ := hdata
        · rw [hnone] at hsome
          cases hsome
        · exact h.data_ne data (hsame ▸ hsome)
      · rw [hreturned, hcontent, hstored, List.append_nil]
        exact List.prefix_append _ _ |>.trans h.returned_front

def Ended (st : System ρ) : Prop :=
  .error .eof ∈ st.results → st.returned.flatten = st.stored.flatten ∧ st.pipe.state ≠ .opened

theorem Ended.change (h : Ended st) (hflows : Flows st) (herrors : st.pipe.errChan = none)
    (hchange : Change P st st') : Ended st' := by
  intro heof
  cases hchange with
  | quiet hdata hstate hstored hresults =>
      have hreturned := returned_of_error (hresults.imp_right fun ⟨err, herr⟩ => ⟨err, herr.1⟩)
      rw [hreturned, hstored, hstate]
      obtain hresults | ⟨err, hresults, hreason⟩ := hresults
      · exact h (hresults ▸ heof)
      · rw [hresults, List.mem_append, List.mem_singleton, Except.error.injEq] at heof
        obtain hbefore | rfl := heof
        · exact h hbefore
        · obtain ⟨hclosed, hempty⟩ := (hreason rfl).resolve_right (by simp [herrors])
          have hall := hflows.returned_eq (by rw [hclosed]; decide)
          rw [hflows.content_eq_nil hempty, List.append_nil] at hall
          exact ⟨hall, by rw [hclosed]; decide⟩
  | stores mb hmb hopen hroom hdata hstate hstored hresults =>
      exact absurd hopen (h (hresults ▸ heof)).2
  | reads data hstate hbefore hdata hsame hstored hresults =>
      rw [hresults, List.mem_append, List.mem_singleton] at heof
      obtain hall := (h (heof.resolve_right (by simp))).1
      -- what is in the pipe after the end would be more than was stored
      have hprefix := hflows.returned_front
      rw [hall, content_of_some hbefore] at hprefix
      have hlength := hprefix.length_le
      rw [List.length_append] at hlength
      have hnil : data = [] := List.length_eq_zero_iff.mp (by omega)
      have := hflows.data_ne data hbefore
      rw [hnil] at this
      cases this
  | closes hopen hdata hstate hstored hresults => exact absurd hopen (h (hresults ▸ heof)).2
  | interrupts hdata hstate hstored hresults =>
      rw [returned_of_error (.inl hresults), hstored, hstate]
      exact ⟨(h (hresults ▸ heof)).1, by decide⟩

/-- The multi-buffer fits into a pipe without running out of 32 bits. -/
def Fits (limit : Int) (mb : MultiBuffer ρ) : Prop := limit + mb.len < 2 ^ 31

structure Bounded (limit : Int) (st : System ρ) : Prop where
  limit_eq : st.pipe.option.limit = limit
  fits : ∀ mb ∈ st.stored, Fits limit mb
  size_le : st.size = 0 ∨ ∃ mb ∈ st.stored, (st.size : Int) ≤ limit + mb.len

theorem Bounded.len32_eq {limit : Int} (h : Bounded limit st) : len32 st.pipe.content = st.size := by
  have hlt : ((st.size : Nat) : Int) < 2 ^ 31 := by
    obtain hzero | ⟨mb, hmb, hle⟩ := h.size_le
    · rw [hzero]
      norm_num
    · exact hle.trans_lt (h.fits mb hmb)
  change Int.bmod st.size (2 ^ 32) = st.size
  exact Int.bmod_eq_of_le (by omega) (by omega)

theorem Bounded.change {limit : Int} (hlimit : 0 ≤ limit) (h : Bounded limit st)
    (hoption : st'.pipe.option = st.pipe.option) (hchange : Change (Fits limit) st st') :
    Bounded limit st' := by
  have hlimit_eq : st'.pipe.option.limit = limit := hoption ▸ h.limit_eq
  have hempty : st'.pipe.data = none → st'.size = 0 := fun hnone => by
    rw [System.size, content_of_none hnone]
    rfl
  have hsame : st'.pipe.data = st.pipe.data → st'.stored = st.stored → Bounded limit st' := by
    intro hdata hstored
    have hsize : st'.size = st.size := by rw [System.size, Pipe.content, hdata, ← Pipe.content, System.size]
    exact ⟨hlimit_eq, hstored ▸ h.fits, hsize ▸ hstored ▸ h.size_le⟩
  cases hchange with
  | quiet hdata hstate hstored hresults => exact hsame hdata hstored
  | stores mb hmb hopen hroom hdata hstate hstored hresults =>
      refine ⟨hlimit_eq, ?_, .inr ⟨mb, by simp [hstored], ?_⟩⟩
      · simpa [hstored, or_imp, forall_and] using ⟨h.fits, hmb⟩
      · have hroom' : (st.size : Int) ≤ limit := by
          rw [PipeOption.isFull, h.limit_eq, h.len32_eq, decide_eq_false_iff_not] at hroom
          omega
        have hsize : st'.size = st.size + mb.len := by
          simp [System.size, content_of_some hdata, MultiBuffer.len, MultiBuffer.bytes]
        rw [hsize]
        push_cast
        omega
  | reads data hstate hbefore hdata hsame hstored hresults =>
      exact ⟨hlimit_eq, hstored ▸ h.fits, .inl (hempty hdata)⟩
  | closes hopen hdata hstate hstored hresults => exact hsame hdata hstored
  | interrupts hdata hstate hstored hresults =>
      obtain hnone | ⟨hdata, -⟩ := hdata
      · exact ⟨hlimit_eq, hstored ▸ h.fits, .inl (hempty hnone)⟩
      · exact hsame hdata hstored

theorem not_opened_change (hstate : st.pipe.state ≠ .opened) (hchange : Change P st st') :
    st'.pipe.state ≠ .opened ∧ st'.stored = st.stored := by
  cases hchange with
  | quiet hdata hsame hstored hresults => exact ⟨hsame ▸ hstate, hstored⟩
  | stores mb hmb hopen hroom hdata hstate' hstored hresults => exact absurd hopen hstate
  | reads data hne hbefore hdata hsame hstored hresults => exact ⟨hsame ▸ hstate, hstored⟩
  | closes hopen hdata hstate' hstored hresults => exact absurd hopen hstate
  | interrupts hdata hstate' hstored hresults => exact ⟨by rw [hstate']; decide, hstored⟩

theorem not_opened_of_close (st : System ρ) : (step st .close).pipe.state ≠ .opened := by
  rw [step, Pipe.close]
  split_ifs with hstate
  · obtain hstate | hstate := hstate <;> simp [hstate]
  · simp

theorem not_opened_of_interrupt (st : System ρ) : (step st .interrupt).pipe.state ≠ .opened := by
  rw [step, Pipe.interrupt]
  dsimp only
  split_ifs with hempty hstate hclosed
  · obtain hstate | hstate := hstate <;> simp [hstate]
  all_goals simp_all

end Invariants

/-- What a step stores is the whole of what its writer writes. -/
def Whole (st : System ρ) (event : Event ρ) : Prop :=
  ((step st event).stored = st.stored ∧
      ((step st event).pipe.data = st.pipe.data ∨ (step st event).pipe.data = none)) ∨
    ∃ mb, (∃ writer, st.writing writer = some mb ∨ event = .write writer mb) ∧
      (step st event).stored = st.stored ++ [mb] ∧
      (step st event).pipe.content = st.pipe.content ++ mb

theorem whole_step (st : System ρ) (event : Event ρ) : Whole st event := by
  have hchange : Change (fun mb => ∃ writer, st.writing writer = some mb ∨ event = .write writer mb) st
      (step st event) :=
    change_step (fun writer mb h => ⟨writer, .inl h⟩) (fun writer mb h _ => ⟨writer, .inr h⟩)
  cases hchange with
  | quiet hdata hstate hstored hresults => exact .inl ⟨hstored, .inl hdata⟩
  | stores mb hmb hopen hroom hdata hstate hstored hresults =>
      exact .inr ⟨mb, hmb, hstored, content_of_some hdata⟩
  | reads data hstate hbefore hdata hsame hstored hresults => exact .inl ⟨hstored, .inr hdata⟩
  | closes hopen hdata hstate hstored hresults => exact .inl ⟨hstored, .inl hdata⟩
  | interrupts hdata hstate hstored hresults => exact .inl ⟨hstored, (hdata.imp_right And.left).symm⟩

section Runs

variable (option : PipeOption) (events : List (Event ρ))

theorem waiting_start : Waiting P (.start option) := fun writer mb h => by simp [System.start] at h

theorem flows_run : Flows (run step (.start option) events) ∧
    Waiting (fun mb => mb.isEmpty = false) (run step (.start option) events) := by
  refine run_induction (P := fun st : System ρ => Flows st ∧ Waiting (fun mb => mb.isEmpty = false) st)
    _ ⟨?_, waiting_start option⟩ (fun st event h => ?_) events
  · exact ⟨by simp [System.start], by simp [System.start, System.returned, Pipe.content],
      by simp [System.start, System.returned, Pipe.content]⟩
  · have hwrites : Writes (fun mb => mb.isEmpty = false) event := fun _ _ _ hmb => hmb
    exact ⟨h.1.change (change_step h.2 hwrites), waiting_step h.2 hwrites⟩

theorem ended_run (herrors : ∀ err, .returnAnError err ∉ events) :
    Ended (run step (.start option) events) := by
  suffices hrun : (Flows (run step (.start option) events) ∧
      Waiting (fun mb => mb.isEmpty = false) (run step (.start option) events)) ∧
      (run step (.start option) events).pipe.errChan = none ∧
      Ended (run step (.start option) events) from hrun.2.2
  refine run_induction_events (P := fun st : System ρ =>
      (Flows st ∧ Waiting (fun mb => mb.isEmpty = false) st) ∧ st.pipe.errChan = none ∧ Ended st)
    (Q := fun event => ∀ err, event ≠ .returnAnError err) (fun st event h hevent => ?_) events _
    ⟨flows_run option [], rfl, fun heof => by simp [System.start] at heof⟩
    (fun event hevent err heq => herrors err (heq ▸ hevent))
  obtain ⟨⟨hflows, hwaiting⟩, hnone, hended⟩ := h
  have hwrites : Writes (fun mb => mb.isEmpty = false) event := fun _ _ _ hmb => hmb
  have hchange := change_step hwaiting hwrites
  exact ⟨⟨hflows.change hchange, waiting_step hwaiting hwrites⟩,
    (step_keeps st event).2 hevent hnone, hended.change hflows hnone hchange⟩

theorem bounded_run (hlimit : 0 ≤ option.limit)
    (hfits : ∀ writer mb, .write writer mb ∈ events → Fits option.limit mb) :
    Bounded option.limit (run step (.start option) events) := by
  suffices hrun : Bounded option.limit (run step (.start option) events) ∧
      Waiting (Fits option.limit) (run step (.start option) events) from hrun.1
  refine run_induction_events (P := fun st : System ρ =>
      Bounded option.limit st ∧ Waiting (Fits option.limit) st)
    (Q := Writes (Fits option.limit)) (fun st event h hwrites => ?_) events _
    ⟨⟨rfl, by simp [System.start], .inl rfl⟩, waiting_start option⟩
    (fun event hevent writer mb heq _ => hfits writer mb (heq ▸ hevent))
  exact ⟨h.1.change hlimit (step_keeps st event).1 (change_step h.2 hwrites),
    waiting_step h.2 hwrites⟩

theorem not_opened_run (hover : .close ∈ events ∨ .interrupt ∈ events) :
    (run step (.start option) events).pipe.state ≠ .opened := by
  have hrest : ∀ (st : System ρ) rest, st.pipe.state ≠ .opened →
      (run step st rest).pipe.state ≠ .opened := fun st rest hstate =>
    run_induction (P := fun st : System ρ => st.pipe.state ≠ .opened) st hstate
      (fun st event h => (not_opened_change (P := fun _ => True) h
        (change_step (fun _ _ _ => trivial) fun _ _ _ _ => trivial)).1) rest
  obtain hclose | hinterrupt := hover
  · obtain ⟨first, rest, rfl⟩ := List.append_of_mem hclose
    rw [run_append, run_cons]
    exact hrest _ rest (not_opened_of_close _)
  · obtain ⟨first, rest, rfl⟩ := List.append_of_mem hinterrupt
    rw [run_append, run_cons]
    exact hrest _ rest (not_opened_of_interrupt _)

/-- **The pipe.** What is returned is a beginning of what was stored, and all of it before `io.EOF`; a
write is stored as a whole or not at all, and not after `Close` or `Interrupt`; and the pipe holds at most
one write more than its limit, as long as that can be counted in 32 bits. -/
theorem pipe_delivers :
    (run step (.start option) events).returned.flatten <+: (run step (.start option) events).stored.flatten ∧
    ((∀ err, .returnAnError err ∉ events) → .error .eof ∈ (run step (.start option) events).results →
      (run step (.start option) events).returned.flatten =
        (run step (.start option) events).stored.flatten) ∧
    (∀ event, Whole (run step (.start option) events) event) ∧
    (.close ∈ events ∨ .interrupt ∈ events → ∀ event,
      (step (run step (.start option) events) event).stored = (run step (.start option) events).stored) ∧
    (0 ≤ option.limit → (∀ writer mb, .write writer mb ∈ events → Fits option.limit mb) →
      (run step (.start option) events).size = 0 ∨ ∃ mb ∈ (run step (.start option) events).stored,
        ((run step (.start option) events).size : Int) ≤ option.limit + mb.len) := by
  refine ⟨?_, fun herrors heof => ?_, whole_step _, fun hover event => ?_, fun hlimit hfits => ?_⟩
  · exact List.prefix_append _ _ |>.trans (flows_run option events).1.returned_front
  · exact (ended_run option events herrors heof).1
  · exact (not_opened_change (P := fun _ => True) (not_opened_run option events hover)
      (change_step (fun _ _ _ => trivial) fun _ _ _ _ => trivial)).2
  · exact (bounded_run option events hlimit hfits).size_le

end Runs

theorem write_of_room {writer : Nat} {mb : MultiBuffer ρ} (hwriter : st.writing writer = none)
    (hmb : mb.isEmpty = false) (hopen : st.pipe.state = .opened)
    (hroom : st.pipe.option.isFull (len32 st.pipe.content) = false) :
    st.write writer mb = { st with
      pipe := { st.pipe with data := some (st.pipe.content ++ mb), readSignal := true }
      writing := Function.update st.writing writer none
      stored := st.stored ++ [mb] } := by
  rw [System.write, if_neg (by simp [hwriter, hmb]), System.attemptWrite,
    Pipe.writeMultiBufferInternal, getState_write_eq_none_iff.mpr ⟨hopen, hroom⟩]
  cases hdata : st.pipe.data with
  | none => simp [Pipe.content, hdata]
  | some data => simp [Pipe.content, hdata]

theorem two_writes_stored {mb mb' : MultiBuffer ρ} (hmb : mb.isEmpty = false)
    (hmb' : mb'.isEmpty = false) (hlen : len32 mb ≤ 0) :
    let st := run step (.start { limit := 0 }) [.write 0 mb, .write 1 mb']
    st.size = mb.len + mb'.len ∧ st.stored = [mb, mb'] := by
  have hnone : PipeOption.isFull { limit := 0 } (len32 ([] : MultiBuffer ρ)) = false := by
    rw [show len32 ([] : MultiBuffer ρ) = 0 from Int.zero_bmod]
    decide
  have hfirst : System.write (.start { limit := 0 }) 0 mb = _ := write_of_room rfl hmb rfl hnone
  have hroom : PipeOption.isFull { limit := 0 } (len32 mb) = false := by
    rw [PipeOption.isFull, decide_eq_false_iff_not]
    exact fun h => absurd h.2 (not_lt.mpr hlen)
  have hsecond : System.write (System.write (.start { limit := 0 }) 0 mb) 1 mb' = _ :=
    write_of_room (by rw [hfirst]; rfl) hmb' (by rw [hfirst]; rfl) (by rw [hfirst]; exact hroom)
  have hrun : run step (.start { limit := 0 }) [.write 0 mb, .write 1 mb'] =
    System.write (System.write (.start { limit := 0 }) 0 mb) 1 mb' := rfl
  rw [hrun, hsecond, hfirst]
  refine ⟨?_, rfl⟩
  simp [System.size, System.start, Pipe.content, MultiBuffer.len, MultiBuffer.bytes]

def twoGibibytes : MultiBuffer ρ := List.replicate (2 ^ 18) { bytes := List.replicate size 0 }

theorem len_twoGibibytes : (twoGibibytes : MultiBuffer ρ).len = 2 ^ 31 := by
  rw [MultiBuffer.len, MultiBuffer.bytes, twoGibibytes, List.length_flatMap, List.map_replicate,
    List.sum_replicate, List.length_replicate]
  norm_num [size]

theorem isEmpty_twoGibibytes : (twoGibibytes : MultiBuffer ρ).isEmpty = false := by
  have hlen : ({ bytes := List.replicate size 0 } : Buffer ρ).len = size := List.length_replicate
  rw [MultiBuffer.isEmpty, List.all_eq_false]
  refine ⟨_, List.mem_replicate.mpr ⟨by norm_num, rfl⟩, ?_⟩
  rw [hlen]
  decide

/-- **The count in 32 bits.** After two gibibytes a pipe of limit 0 takes another byte. -/
theorem limit_passed_after_two_gibibytes :
    let st := run step (.start { limit := 0 })
      [.write 0 (twoGibibytes : MultiBuffer Unit), .write 1 [{ bytes := [1] }]]
    st.size = 2 ^ 31 + 1 ∧ ∀ mb ∈ st.stored, (0 : Int) + mb.len < st.size := by
  have hlen := len_twoGibibytes (ρ := Unit)
  have hlen32 : len32 (twoGibibytes : MultiBuffer Unit) ≤ 0 := by
    have hbmod : Int.bmod (2 ^ 31 : Nat) (2 ^ 32) ≤ 0 := by decide +kernel
    rwa [← hlen] at hbmod
  obtain ⟨hsize, hstored⟩ := two_writes_stored isEmpty_twoGibibytes
    (show MultiBuffer.isEmpty [{ bytes := [1] }] = false from rfl) hlen32
  have hone : MultiBuffer.len ([{ bytes := [1] }] : MultiBuffer Unit) = 1 := rfl
  rw [hlen, hone] at hsize
  intro st
  refine ⟨hsize, fun mb hmb => ?_⟩
  rw [hsize]
  rw [hstored, List.mem_cons, List.mem_singleton] at hmb
  obtain rfl | rfl := hmb
  · rw [hlen]
    norm_num
  · rw [hone]
    norm_num

end V2RootCore.Transport
