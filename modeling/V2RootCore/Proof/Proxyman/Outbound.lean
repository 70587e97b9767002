import Mathlib.Data.List.Perm.Basic
import V2RootCore.Proof.Go.Map
import V2RootCore.Proxyman.Outbound

/-!
# Consistency of the outbound manager

Between calls, the default handler is one of the manager's own, and all handlers run while the manager
does. Only `AddHandler` can break this, or leave something behind when it fails: the default handler is
chosen before the tag is looked up, and a handler is stored before it is started.
-/

namespace V2RootCore.Proxyman

open Go Manager Transition

/-- A tag that another handler has. -/
def Manager.Taken (m : Manager) (tag : Bytes) : Prop := tag ≠ [] ∧ (m.taggedHandler.lookup tag).isSome

/-- What the call does to a manager is in order: an `AddHandler` that fails changes nothing, and
afterwards the default handler is one of the handlers, which all run if the manager does and no error has
been reported. -/
structure Consistent (st : State) (call : Call) : Prop where
  unchanged : ∀ handler fails err, call = .addHandler handler fails →
    (call.result st.manager st.started).2.2 = some err →
    (call.apply st).manager.taggedHandler = st.manager.taggedHandler ∧
      (call.apply st).manager.untaggedHandlers = st.manager.untaggedHandlers ∧
      (call.apply st).manager.defaultHandler = st.manager.defaultHandler
  default : ∀ handler, (call.apply st).manager.defaultHandler = some handler →
    handler ∈ (call.apply st).manager.handlers
  running : (call.apply st).manager.running = true → (call.apply st).reported = false →
    ∀ handler ∈ (call.apply st).manager.handlers, handler ∈ (call.apply st).started

/-- A handler with a tag that is taken does not come while there is no default handler, and a handler that
comes while the manager runs can be started. -/
def Allowed (st : State) : Call → Prop
  | .addHandler handler fails =>
      (st.manager.Taken handler.tag → st.manager.defaultHandler ≠ none) ∧
        (st.manager.running = true → ¬ st.manager.Taken handler.tag → fails = none)
  | _ => True

structure Sound (st : State) : Prop where
  tags : ∀ tag handler, (tag, handler) ∈ st.manager.taggedHandler → handler.tag = tag ∧ tag ≠ []
  default : ∀ handler, st.manager.defaultHandler = some handler → handler ∈ st.manager.handlers
  running : st.manager.running = true → st.reported = false →
    ∀ handler ∈ st.manager.handlers, handler ∈ st.started

theorem mem_handlers {m : Manager} {handler : Handler} :
    handler ∈ m.handlers ↔
      (∃ tag, (tag, handler) ∈ m.taggedHandler) ∨ handler ∈ m.untaggedHandlers := by
  simp [Manager.handlers, Manager.tagged]

/-! ### Single calls -/

section AddHandler

variable {m : Manager} {handler : Handler}

@[simp]
theorem taggedHandler_withDefault : (m.withDefault handler).taggedHandler = m.taggedHandler := by
  unfold withDefault
  split <;> rfl

@[simp]
theorem untaggedHandlers_withDefault :
    (m.withDefault handler).untaggedHandlers = m.untaggedHandlers := by
  unfold withDefault
  split <;> rfl

@[simp]
theorem running_withDefault : (m.withDefault handler).running = m.running := by
  unfold withDefault
  split <;> rfl

theorem defaultHandler_withDefault :
    (m.withDefault handler).defaultHandler = some (m.defaultHandler.getD handler) := by
  unfold withDefault
  split
  · next hnone => simp [hnone]
  · next hsome =>
      obtain ⟨other, hother⟩ := Option.ne_none_iff_exists'.mp hsome
      simp [hother]

@[simp]
theorem defaultHandler_insert : (m.insert handler).defaultHandler = m.defaultHandler := by
  unfold Manager.insert
  split <;> rfl

@[simp]
theorem running_insert : (m.insert handler).running = m.running := by
  unfold Manager.insert
  split <;> rfl

theorem mem_taggedHandler_insert {tag : Bytes} {other : Handler} (hfree : ¬ m.Taken handler.tag) :
    (tag, other) ∈ (m.insert handler).taggedHandler ↔
      (handler.tag ≠ [] ∧ tag = handler.tag ∧ other = handler) ∨ (tag, other) ∈ m.taggedHandler := by
  unfold Manager.insert
  split
  · next htag =>
      rw [Map.mem_set]
      have hne (hmem : (tag, other) ∈ m.taggedHandler) : tag ≠ handler.tag := by
        rintro rfl
        have hnone : ¬ (m.taggedHandler.lookup handler.tag).isSome := fun hsome => hfree ⟨htag, hsome⟩
        rw [Option.not_isSome_iff_eq_none, List.lookup_eq_none_iff] at hnone
        exact absurd (hnone _ hmem) (by simp)
      constructor
      · rintro (hself | ⟨-, hmem⟩)
        · exact .inl ⟨htag, hself⟩
        · exact .inr hmem
      · rintro (⟨-, hself⟩ | hmem)
        · exact .inl hself
        · exact .inr ⟨hne hmem, hmem⟩
  · next htag => exact ⟨.inr, fun h => h.resolve_left fun hself => htag hself.1⟩

theorem mem_handlers_insert {other : Handler} (hfree : ¬ m.Taken handler.tag) :
    other ∈ (m.insert handler).handlers ↔ other = handler ∨ other ∈ m.handlers := by
  rw [mem_handlers, mem_handlers]
  simp only [mem_taggedHandler_insert hfree]
  by_cases htag : handler.tag = []
  · have hlist : (m.insert handler).untaggedHandlers = m.untaggedHandlers ++ [handler] := by
      simp [Manager.insert, htag]
    rw [hlist, List.mem_append, List.mem_singleton]
    simp only [htag, ne_eq, not_true, false_and, false_or]
    tauto
  · have hlist : (m.insert handler).untaggedHandlers = m.untaggedHandlers := by
      simp [Manager.insert, htag]
    rw [hlist]
    constructor
    · rintro (⟨tag, ⟨-, -, rfl⟩ | hmem⟩ | hmem)
      · exact .inl rfl
      · exact .inr (.inl ⟨tag, hmem⟩)
      · exact .inr (.inr hmem)
    · rintro (rfl | ⟨tag, hmem⟩ | hmem)
      · exact .inl ⟨other.tag, .inl ⟨htag, rfl, rfl⟩⟩
      · exact .inl ⟨tag, .inr hmem⟩
      · exact .inr hmem

theorem addHandler_cases (m : Manager) (handler : Handler) (fails : Option Error)
    (started : List Handler) :
    (m.Taken handler.tag ∧ ∃ err,
      m.addHandler handler fails started = (m.withDefault handler, started, some err)) ∨
    (¬ m.Taken handler.tag ∧ m.running = true ∧ ∃ err, fails = some err ∧
      m.addHandler handler fails started = ((m.withDefault handler).insert handler, started, some err)) ∨
    (¬ m.Taken handler.tag ∧ m.running = true ∧ fails = none ∧
      m.addHandler handler fails started =
        ((m.withDefault handler).insert handler, handler :: started, none)) ∨
    (¬ m.Taken handler.tag ∧ m.running = false ∧
      m.addHandler handler fails started = ((m.withDefault handler).insert handler, started, none)) := by
  by_cases htaken : m.Taken handler.tag
  · refine .inl ⟨htaken, .new (ascii "existing tag found: " ++ handler.tag), ?_⟩
    unfold addHandler
    simp only [taggedHandler_withDefault]
    exact if_pos htaken
  · have hadd : m.addHandler handler fails started =
        if m.running = true then
          fails.elim ((m.withDefault handler).insert handler, handler :: started, none)
            fun err => ((m.withDefault handler).insert handler, started, some err)
        else ((m.withDefault handler).insert handler, started, none) := by
      unfold addHandler
      simp only [taggedHandler_withDefault, running_insert, running_withDefault]
      cases fails <;> exact if_neg htaken
    cases hrunning : m.running with
    | false =>
        rw [hrunning] at hadd
        exact .inr (.inr (.inr ⟨htaken, rfl, hadd⟩))
    | true =>
        rw [hrunning] at hadd
        cases hfails : fails with
        | some err =>
            rw [hfails] at hadd
            exact .inr (.inl ⟨htaken, rfl, err, rfl, hadd⟩)
        | none =>
            rw [hfails] at hadd
            exact .inr (.inr (.inl ⟨htaken, rfl, rfl, hadd⟩))

end AddHandler

theorem mem_started_of_startAll {fails : Handler → Option Error} {handlers started : List Handler}
    (h : (startAll fails handlers started).2 = none) {handler : Handler}
    (hmem : handler ∈ handlers ∨ handler ∈ started) : handler ∈ (startAll fails handlers started).1 := by
  induction handlers generalizing started with
  | nil => exact hmem.resolve_left List.not_mem_nil
  | cons first rest ih =>
      rw [startAll] at h ⊢
      cases hfirst : fails first with
      | some err =>
          rw [hfirst] at h
          cases h
      | none =>
          rw [hfirst] at h
          refine ih h ?_
          rw [List.mem_cons] at hmem ⊢
          tauto

theorem mem_delete {tagged : Map Handler} {key tag : Bytes} {handler : Handler} :
    (tag, handler) ∈ delete tagged key ↔ (tag, handler) ∈ tagged ∧ tag ≠ key := by
  simp [delete]

theorem removeHandler_cases (m : Manager) (tag : Bytes) :
    (m.removeHandler tag).1 = m ∨
      ((m.removeHandler tag).1.taggedHandler = delete m.taggedHandler tag ∧
        (m.removeHandler tag).1.untaggedHandlers = m.untaggedHandlers ∧
        (m.removeHandler tag).1.running = m.running ∧
        ∀ handler, (m.removeHandler tag).1.defaultHandler = some handler →
          m.defaultHandler = some handler ∧ handler.tag ≠ tag) := by
  unfold removeHandler
  split
  · exact .inl rfl
  · dsimp only
    split
    · exact .inr ⟨rfl, rfl, rfl, fun _ hdefault => by cases hdefault⟩
    · next hother =>
        refine .inr ⟨rfl, rfl, rfl, fun handler hdefault => ⟨hdefault, fun htag => hother ?_⟩⟩
        have hdefault' : m.defaultHandler = some handler := hdefault
        simp [hdefault', htag]

/-! ### Every call -/

section Call

variable {st : State}

theorem tags_apply (htags : ∀ tag handler, (tag, handler) ∈ st.manager.taggedHandler →
      handler.tag = tag ∧ tag ≠ []) (call : Call) :
    ∀ tag handler, (tag, handler) ∈ (call.apply st).manager.taggedHandler →
      handler.tag = tag ∧ tag ≠ [] := by
  cases call with
  | addHandler handler fails =>
      have hinsert (hfree : ¬ st.manager.Taken handler.tag) : ∀ tag other,
          (tag, other) ∈ ((st.manager.withDefault handler).insert handler).taggedHandler →
          other.tag = tag ∧ tag ≠ [] := by
        intro tag other hmem
        have hfree' : ¬ (st.manager.withDefault handler).Taken handler.tag := by
          unfold Taken
          rwa [taggedHandler_withDefault]
        rw [mem_taggedHandler_insert hfree', taggedHandler_withDefault] at hmem
        obtain ⟨hne, rfl, rfl⟩ | hold := hmem
        · exact ⟨rfl, hne⟩
        · exact htags tag other hold
      obtain ⟨-, err, hcall⟩ | ⟨hfree, -, err, -, hcall⟩ | ⟨hfree, -, -, hcall⟩ | ⟨hfree, -, hcall⟩ :=
        addHandler_cases st.manager handler fails st.started
      · simp only [Call.apply, Call.result, hcall, taggedHandler_withDefault]
        exact htags
      all_goals
        simp only [Call.apply, Call.result, hcall]
        exact hinsert hfree
  | removeHandler key =>
      intro tag handler hmem
      change (tag, handler) ∈ (st.manager.removeHandler key).1.taggedHandler at hmem
      obtain hempty | ⟨htagged, -, -, -⟩ := removeHandler_cases st.manager key
      · rw [hempty] at hmem
        exact htags tag handler hmem
      · rw [htagged] at hmem
        exact htags tag handler (mem_delete.mp hmem).1
  | start order fails =>
      simp only [Call.apply, Call.result]
      split
      · exact htags
      · exact htags
  | close fails => exact htags

theorem consistent_removeHandler (h : Sound st) (tag : Bytes) : Consistent st (.removeHandler tag) := by
  have hmanager : (Call.apply st (.removeHandler tag)).manager = (st.manager.removeHandler tag).1 := rfl
  refine ⟨fun _ _ _ hcall => (nomatch hcall), ?_, ?_⟩
  · rw [hmanager]
    obtain hempty | ⟨htagged, hlist, -, hdefault⟩ := removeHandler_cases st.manager tag
    · rw [hempty]
      exact h.default
    · intro handler hhandler
      obtain ⟨hold, htag⟩ := hdefault handler hhandler
      rw [mem_handlers, htagged, hlist]
      refine (mem_handlers.mp (h.default handler hold)).imp_left ?_
      rintro ⟨key, hkey⟩
      exact ⟨key, mem_delete.mpr ⟨hkey, fun heq => htag ((h.tags key handler hkey).1.trans heq)⟩⟩
  · rw [hmanager]
    intro hrunning hreported handler hmem
    have hreported' : st.reported = false := (Bool.or_eq_false_iff.mp hreported).1
    obtain hempty | ⟨htagged, hlist, hruns, -⟩ := removeHandler_cases st.manager tag
    · rw [hempty] at hrunning hmem
      exact h.running hrunning hreported' handler hmem
    · rw [hruns] at hrunning
      refine h.running hrunning hreported' handler ?_
      rw [mem_handlers, htagged, hlist] at hmem
      refine mem_handlers.mpr (hmem.imp_left ?_)
      rintro ⟨key, hkey⟩
      exact ⟨key, (mem_delete.mp hkey).1⟩

theorem consistent_start (h : Sound st) (order : List Handler) (fails : Handler → Option Error) :
    Consistent st (.start order fails) := by
  refine ⟨fun _ _ _ hcall => (nomatch hcall), ?_, ?_⟩
  · simp only [Call.apply, Call.result]
    split
    · exact h.default
    · exact h.default
  · simp only [Call.apply, Call.result]
    split
    · next hperm =>
        intro _ hreported handler hmem
        have hnone := Option.not_isSome_iff_eq_none.mp (Bool.eq_false_iff.mp (Bool.or_eq_false_iff.mp hreported).2)
        refine mem_started_of_startAll hnone (.inl ?_)
        obtain htagged | hlist := List.mem_append.mp hmem
        · exact List.mem_append_left _ (hperm.mem_iff.mpr htagged)
        · exact List.mem_append_right _ hlist
    · intro hrunning hreported
      exact h.running hrunning (Bool.or_eq_false_iff.mp hreported).1

theorem consistent_close (h : Sound st) (fails : Handler → Option Error) :
    Consistent st (.close fails) := by
  refine ⟨fun _ _ _ hcall => (nomatch hcall), h.default, ?_⟩
  intro hrunning
  cases hrunning

/-! ### Adding a handler -/

variable {m : Manager} {handler : Handler}

theorem withDefault_of_ne (handler : Handler) (h : m.defaultHandler ≠ none) :
    m.withDefault handler = m := if_neg h

theorem taken_withDefault (handler : Handler) {tag : Bytes} :
    (m.withDefault handler).Taken tag ↔ m.Taken tag := by
  unfold Taken
  rw [taggedHandler_withDefault]

theorem handlers_withDefault :
    (m.withDefault handler).handlers = m.handlers := by
  simp only [Manager.handlers, Manager.tagged, taggedHandler_withDefault, untaggedHandlers_withDefault]

theorem insert_ne (hfree : ¬ m.Taken handler.tag) :
    ¬ ((m.insert handler).taggedHandler = m.taggedHandler ∧
      (m.insert handler).untaggedHandlers = m.untaggedHandlers) := by
  rintro ⟨htagged, hlist⟩
  by_cases htag : handler.tag = []
  · have happend : (m.insert handler).untaggedHandlers = m.untaggedHandlers ++ [handler] := by
      simp [Manager.insert, htag]
    rw [happend] at hlist
    simpa using congrArg List.length hlist
  · have hset : (m.insert handler).taggedHandler = m.taggedHandler.set handler.tag handler := by
      simp [Manager.insert, htag]
    refine hfree ⟨htag, ?_⟩
    rw [← htagged, hset, Map.lookup_set_self]
    rfl

theorem default_insert (h : Sound st) (hfree : ¬ st.manager.Taken handler.tag) (other : Handler)
    (hdefault : ((st.manager.withDefault handler).insert handler).defaultHandler = some other) :
    other ∈ ((st.manager.withDefault handler).insert handler).handlers := by
  rw [defaultHandler_insert, defaultHandler_withDefault] at hdefault
  rw [mem_handlers_insert (mt (taken_withDefault _).mp hfree), handlers_withDefault]
  cases hold : st.manager.defaultHandler with
  | none =>
      rw [hold] at hdefault
      exact .inl (Option.some.inj hdefault).symm
  | some first =>
      rw [hold] at hdefault
      obtain rfl : first = other := Option.some.inj hdefault
      exact .inr (h.default first hold)

theorem apply_addHandler {fails : Option Error} {started : List Handler} {err : Option Error}
    (hcall : st.manager.addHandler handler fails st.started = (m, started, err)) :
    (Call.result st.manager st.started (.addHandler handler fails)).2.2 = err ∧
      Call.apply st (.addHandler handler fails) =
        { manager := m, started, reported := st.reported || err.isSome } := by
  simp only [Call.apply, Call.result, hcall, and_self]

theorem consistent_addHandler_iff (h : Sound st) (handler : Handler) (fails : Option Error) :
    Consistent st (.addHandler handler fails) ↔ Allowed st (.addHandler handler fails) := by
  obtain ⟨htaken, err, hcall⟩ | ⟨hfree, hrunning, err, rfl, hcall⟩ | ⟨hfree, -, rfl, hcall⟩ |
    ⟨hfree, hrunning, hcall⟩ := addHandler_cases st.manager handler fails st.started
  · -- The tag is taken: only the default handler can change.
    obtain ⟨hresult, happly⟩ := apply_addHandler hcall
    constructor
    · intro hconsistent
      obtain ⟨-, -, hdefault⟩ := hconsistent.unchanged handler fails err rfl hresult
      rw [happly, defaultHandler_withDefault] at hdefault
      refine ⟨fun _ hnone => ?_, fun _ hfree => absurd htaken hfree⟩
      rw [hnone] at hdefault
      cases hdefault
    · intro hallowed
      have hsame := withDefault_of_ne handler (hallowed.1 htaken)
      rw [hsame] at happly
      refine ⟨fun _ _ _ _ _ => ?_, ?_, fun _ hreported => ?_⟩
      · rw [happly]
        exact ⟨rfl, rfl, rfl⟩
      · rw [happly]
        exact h.default
      · rw [happly, Option.isSome_some, Bool.or_true] at hreported
        cases hreported
  · -- The handler is stored but does not start.
    obtain ⟨hresult, happly⟩ := apply_addHandler hcall
    refine iff_of_false ?_ ?_
    · intro hconsistent
      obtain ⟨htagged, hlist, -⟩ := hconsistent.unchanged handler (some err) err rfl hresult
      rw [happly] at htagged hlist
      refine insert_ne (mt (taken_withDefault handler).mp hfree) ⟨?_, ?_⟩
      · rw [htagged, taggedHandler_withDefault]
      · rw [hlist, untaggedHandlers_withDefault]
    · intro hallowed
      cases hallowed.2 hrunning hfree
  · obtain ⟨hresult, happly⟩ := apply_addHandler hcall
    refine iff_of_true ⟨fun _ _ err _ herr => ?_, ?_, ?_⟩ ⟨fun htaken => absurd htaken hfree, fun _ _ => rfl⟩
    · cases hresult.symm.trans herr
    · rw [happly]
      exact default_insert h hfree
    · rw [happly]
      intro hrunning hreported other hother
      rw [Option.isSome_none, Bool.or_false] at hreported
      rw [running_insert, running_withDefault] at hrunning
      rw [mem_handlers_insert (mt (taken_withDefault _).mp hfree), handlers_withDefault] at hother
      obtain rfl | hold := hother
      · exact List.mem_cons_self
      · exact List.mem_cons_of_mem _ (h.running hrunning hreported other hold)
  · obtain ⟨hresult, happly⟩ := apply_addHandler hcall
    refine iff_of_true ⟨fun _ _ err _ herr => ?_, ?_, fun hruns => ?_⟩
      ⟨fun htaken => absurd htaken hfree, fun hruns => ?_⟩
    · cases hresult.symm.trans herr
    · rw [happly]
      exact default_insert h hfree
    · rw [happly, running_insert, running_withDefault, hrunning] at hruns
      cases hruns
    · rw [hrunning] at hruns
      cases hruns

theorem consistent_iff (h : Sound st) (call : Call) : Consistent st call ↔ Allowed st call := by
  cases call with
  | addHandler handler fails => exact consistent_addHandler_iff h handler fails
  | removeHandler tag => exact iff_of_true (consistent_removeHandler h tag) trivial
  | start order fails => exact iff_of_true (consistent_start h order fails) trivial
  | close fails => exact iff_of_true (consistent_close h fails) trivial

theorem Sound.apply (h : Sound st) {call : Call} (hconsistent : Consistent st call) :
    Sound (call.apply st) :=
  ⟨tags_apply h.tags call, hconsistent.default, hconsistent.running⟩

end Call

theorem sound_new : Sound {} := by
  refine ⟨fun _ _ hmem => ?_, fun _ hdefault => ?_, fun hrunning => ?_⟩
  · cases hmem
  · cases hdefault
  · cases hrunning

/-- **When the manager is consistent.** All calls of a sequence are in order exactly if none of them adds a
handler under a tag that is taken while there is no default handler, or one that cannot be started to a
manager that runs. -/
theorem consistent_along_iff (calls : List Call) :
    Along Call.apply Consistent {} calls ↔ Along Call.apply Allowed {} calls := by
  have hinv (st : State) (call : Call) (h : Sound st) (hconsistent : Consistent st call) :
      Sound (call.apply st) := h.apply hconsistent
  exact along_iff_along hinv (fun st call h => consistent_iff h call) calls _ sound_new

/-- A handler is rejected, and is the default one all the same. -/
theorem not_consistent_rejected :
    ¬ Along Call.apply Consistent {}
      [.addHandler ⟨0, ascii "a"⟩ none, .addHandler ⟨1, ascii "b"⟩ none, .removeHandler (ascii "a"),
        .addHandler ⟨2, ascii "b"⟩ none] := by
  intro h
  have hmem := h.2.2.2.1.default ⟨2, ascii "b"⟩ (by decide)
  revert hmem
  decide

end V2RootCore.Proxyman
