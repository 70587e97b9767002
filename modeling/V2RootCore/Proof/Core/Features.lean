import Mathlib.Data.List.Nodup
import Mathlib.Data.List.Perm.Basic
import V2RootCore.Core.Features

/-!
# Every callback is called once

At any time each callback that was registered has been called, is about to be called or waits for a
feature, and is only one of these. A call that invokes several callbacks returns the error of the last one,
so an error of another one is lost.
-/

namespace V2RootCore.Core

open Go

variable {τ φ : Type} [DecidableEq τ] {kinds : Kinds τ φ} {s : Instance τ φ} {deps : List τ}

theorem foundAll_eq_true {features : List φ} :
    foundAll kinds features deps = true ↔
      ∀ dep ∈ deps, ∃ feature ∈ features, kinds.typeOf feature = dep := by
  simp [foundAll, getFeature]

theorem foundAll_mono {features features' : List φ} (h : foundAll kinds features deps = true)
    (hsub : features ⊆ features') :
    foundAll kinds features' deps = true := by
  rw [foundAll_eq_true] at h ⊢
  intro dep hdep
  obtain ⟨feature, hfeature, htype⟩ := h dep hdep
  exact ⟨feature, hsub hfeature, htype⟩

theorem exists_inputs {features : List φ} (h : foundAll kinds features deps = true) :
    ∃ input, inputs kinds features deps = some input := by
  have hlength : (deps.filterMap fun dep =>
      features.find? fun feature => kinds.assignableTo feature dep).length = deps.length := by
    rw [List.filterMap_length_eq_length]
    intro dep hdep
    obtain ⟨feature, hfeature, rfl⟩ := foundAll_eq_true.mp h dep hdep
    rw [List.find?_isSome]
    exact ⟨feature, hfeature, kinds.assignableTo_typeOf feature⟩
  refine ⟨_, if_neg (not_not.mpr hlength)⟩

/-- The resolutions that wait. -/
def Instance.waiting (s : Instance τ φ) : List (Resolution τ φ) :=
  s.pendingResolutions ++ s.pendingOptionalResolutions

variable (kinds) in
/-- Each callback has been called, is to be called next or waits for a feature. -/
structure Accounted (todo : List (Resolution τ φ)) (s : Instance τ φ) : Prop where
  calm : s.panicked = false
  known : ∀ r ∈ todo ++ s.waiting, s.registered[r.id]? = some r.deps
  once : (s.invoked.map Prod.fst ++ (todo ++ s.waiting).map (·.id)).Perm
    (List.range s.registered.length)
  ready : ∀ r ∈ todo, foundAll kinds s.features r.deps = true
  waits : ∀ r ∈ s.waiting, foundAll kinds s.features r.deps = false
  invoked : ∀ call ∈ s.invoked, call.2 <+: s.features ∧
    ∃ deps, s.registered[call.1]? = some deps ∧ foundAll kinds call.2 deps = true
  reported : ∀ report ∈ s.reports, report.returned = lastError report.errs

namespace Accounted

variable {todo : List (Resolution τ φ)}

omit [DecidableEq τ] in
theorem registered_lt {id : Nat} {other : List τ} (h : s.registered[id]? = some deps) :
    (s.registered ++ [other])[id]? = some deps := by
  obtain ⟨hlt, -⟩ := List.getElem?_eq_some_iff.mp h
  rw [List.getElem?_append_left hlt, h]

theorem report (h : Accounted kinds todo s) {errs : List (Option Error)} {returned : Option Error}
    (hreturned : returned = lastError errs) : Accounted kinds todo (s.report errs returned) := by
  refine ⟨h.calm, h.known, h.once, h.ready, h.waits, h.invoked, fun report hreport => ?_⟩
  obtain hold | hnew := List.mem_append.mp hreport
  · exact h.reported report hold
  · rw [List.mem_singleton.mp hnew]
    exact hreturned

theorem register_invoke (h : Accounted kinds todo s)
    (hfound : foundAll kinds s.features deps = true) :
    Accounted kinds todo ((s.register deps).invoke s.registered.length) := by
  refine ⟨h.calm, fun r hr => registered_lt (h.known r hr), ?_, h.ready, h.waits, ?_, h.reported⟩
  · have hperm : (s.invoked.map Prod.fst ++ [s.registered.length] ++
        (todo ++ s.waiting).map (·.id)).Perm (List.range s.registered.length ++ [s.registered.length]) := by
      refine (List.perm_append_comm.append_right _).trans ?_
      rw [List.append_assoc]
      exact (h.once.append_left _).trans List.perm_append_comm
    have hlength : (s.registered ++ [deps]).length = s.registered.length + 1 := by simp
    change ((s.invoked ++ [(s.registered.length, s.features)]).map Prod.fst ++
      (todo ++ s.waiting).map (·.id)).Perm (List.range (s.registered ++ [deps]).length)
    rw [hlength, List.range_succ, List.map_append]
    exact hperm
  · intro call hcall
    obtain hold | hnew := List.mem_append.mp hcall
    · obtain ⟨hfront, found, hregistered, hfeatures⟩ := h.invoked call hold
      exact ⟨hfront, found, registered_lt hregistered, hfeatures⟩
    · rw [List.mem_singleton.mp hnew]
      exact ⟨List.prefix_rfl, deps, List.getElem?_concat_length, hfound⟩

theorem register_suspend (h : Accounted kinds todo s) {optional : Bool}
    {callback : List φ → Program τ φ} (hfound : foundAll kinds s.features deps = false) :
    Accounted kinds todo
      ((s.register deps).suspend optional ⟨s.registered.length, deps, callback⟩) := by
  obtain ⟨r, hr⟩ : ∃ r : Resolution τ φ, r = ⟨s.registered.length, deps, callback⟩ := ⟨_, rfl⟩
  have hwaiting : (((s.register deps).suspend optional r).waiting).Perm (s.waiting ++ [r]) := by
    cases optional with
    | true => exact .of_eq (List.append_assoc _ _ _).symm
    | false =>
        refine .trans (.of_eq (List.append_assoc _ _ _)) ?_
        refine .trans (List.perm_append_comm.append_left _) ?_
        exact .of_eq (List.append_assoc _ _ _).symm
  have hsame : ((s.register deps).suspend optional r).panicked = s.panicked ∧
      ((s.register deps).suspend optional r).registered = s.registered ++ [deps] ∧
      ((s.register deps).suspend optional r).invoked = s.invoked ∧
      ((s.register deps).suspend optional r).features = s.features ∧
      ((s.register deps).suspend optional r).reports = s.reports := by
    cases optional <;> exact ⟨rfl, rfl, rfl, rfl, rfl⟩
  obtain ⟨hpanicked, hregistered, hinvoked, hfeatures, hreports⟩ := hsame
  rw [← hr]
  refine ⟨hpanicked.trans h.calm, ?_, ?_, ?_, ?_, ?_, ?_⟩
  · intro other hother
    rw [hregistered]
    rw [(hwaiting.append_left todo).mem_iff, ← List.append_assoc, List.mem_append] at hother
    obtain hold | hnew := hother
    · exact registered_lt (h.known other hold)
    · rw [List.mem_singleton.mp hnew, hr]
      exact List.getElem?_concat_length
  · rw [hregistered, hinvoked, List.length_append, List.length_singleton, List.range_succ]
    refine .trans (((hwaiting.append_left todo).map _).append_left _) ?_
    rw [← List.append_assoc todo, List.map_append, ← List.append_assoc, hr]
    exact h.once.append_right _
  · intro other hother
    rw [hfeatures]
    exact h.ready other hother
  · intro other hother
    rw [hfeatures]
    rw [hwaiting.mem_iff, List.mem_append] at hother
    obtain hold | hnew := hother
    · exact h.waits other hold
    · rw [List.mem_singleton.mp hnew, hr]
      exact hfound
  · intro call hcall
    rw [hinvoked] at hcall
    rw [hfeatures, hregistered]
    obtain ⟨hfront, found, hregistered, hfeatures⟩ := h.invoked call hcall
    exact ⟨hfront, found, registered_lt hregistered, hfeatures⟩
  · rw [hreports]
    exact h.reported

theorem invoke_next {r : Resolution τ φ} (h : Accounted kinds (r :: todo) s) :
    Accounted kinds todo (s.invoke r.id) := by
  refine ⟨h.calm, fun other hother => h.known other (List.mem_cons_of_mem _ hother), ?_,
    fun other hother => h.ready other (List.mem_cons_of_mem _ hother), h.waits, ?_, h.reported⟩
  · change ((s.invoked ++ [(r.id, s.features)]).map Prod.fst ++ (todo ++ s.waiting).map (·.id)).Perm
      (List.range s.registered.length)
    rw [List.map_append, List.append_assoc]
    exact h.once
  · intro call hcall
    obtain hold | hnew := List.mem_append.mp hcall
    · exact h.invoked call hold
    · rw [List.mem_singleton.mp hnew]
      exact ⟨List.prefix_rfl, r.deps, h.known r List.mem_cons_self, h.ready r List.mem_cons_self⟩

end Accounted

/-! ### Programs and calls -/

variable {callback : List φ → Program τ φ} {next : Option Error → Program τ φ} {todo : List (Resolution τ φ)}

theorem Program.exec_require_of_found {optional : Bool} {input : List φ}
    (hfound : foundAll kinds s.features deps = true)
    (hinput : inputs kinds s.features deps = some input) :
    (Program.require deps optional callback next).exec kinds s =
      (next ((callback input).exec kinds ((s.register deps).invoke s.registered.length)).2).exec kinds
        (((callback input).exec kinds ((s.register deps).invoke s.registered.length)).1.report
          [((callback input).exec kinds ((s.register deps).invoke s.registered.length)).2]
          ((callback input).exec kinds ((s.register deps).invoke s.registered.length)).2) := by
  have hfound' : foundAll kinds (s.register deps).features deps = true := hfound
  have hinput' : inputs kinds (s.register deps).features deps = some input := hinput
  rw [exec]
  simp only [hfound', hinput', if_true]

theorem Program.exec_require_of_missing {optional : Bool}
    (hfound : foundAll kinds s.features deps = false) :
    (Program.require deps optional callback next).exec kinds s =
      (next none).exec kinds
        (((s.register deps).suspend optional ⟨s.registered.length, deps, callback⟩).report [] none) := by
  have hfound' : foundAll kinds (s.register deps).features deps = false := hfound
  rw [exec]
  simp only [hfound', if_false, Bool.false_eq_true]

theorem Accounted.exec (h : Accounted kinds todo s) (program : Program τ φ) :
    Accounted kinds todo (program.exec kinds s).1 := by
  induction program generalizing s with
  | done err => exact h
  | require deps optional callback next ihcallback ihnext =>
      cases hfound : foundAll kinds s.features deps with
      | true =>
          obtain ⟨input, hinput⟩ := exists_inputs hfound
          rw [Program.exec_require_of_found hfound hinput]
          exact ihnext _ ((ihcallback input (h.register_invoke hfound)).report rfl)
      | false =>
          rw [Program.exec_require_of_missing hfound]
          exact ihnext none ((h.register_suspend hfound).report rfl)

theorem Accounted.callAll (h : Accounted kinds todo s) :
    Accounted kinds [] (Core.callAll kinds todo s).1 := by
  induction todo generalizing s with
  | nil => exact h
  | cons r rest ih =>
      obtain ⟨input, hinput⟩ := exists_inputs (h.ready r List.mem_cons_self)
      rw [Core.callAll, hinput]
      exact ih (h.invoke_next.exec _)

theorem Accounted.split (h : Accounted kinds [] s) {feature : φ} {available : Resolution τ φ → Bool}
    (havailable : ∀ r, available r = foundAll kinds (s.features ++ [feature]) r.deps) :
    Accounted kinds
      (s.pendingResolutions.filter available ++ s.pendingOptionalResolutions.filter available)
      { s with
        features := s.features ++ [feature]
        pendingResolutions := s.pendingResolutions.filter fun r => ¬available r
        pendingOptionalResolutions := s.pendingOptionalResolutions.filter fun r => ¬available r } := by
  have hfront : s.features <+: s.features ++ [feature] := List.prefix_append _ _
  have hperm : (s.pendingResolutions.filter available ++ s.pendingOptionalResolutions.filter available ++
      (s.pendingResolutions.filter (fun r => ¬available r) ++
        s.pendingOptionalResolutions.filter fun r => ¬available r)).Perm s.waiting := by
    have hnot : (fun r => decide (¬available r = true)) = fun r => !available r := by
      funext r
      simp
    rw [← List.filter_append, ← List.filter_append, hnot]
    exact List.filter_append_perm available _
  refine ⟨h.calm, fun r hr => ?_, ?_, fun r hr => ?_, fun r hr => ?_, fun call hcall => ?_, h.reported⟩
  · exact h.known r (hperm.mem_iff.mp hr)
  · exact ((hperm.map _).append_left _).trans h.once
  · rw [← List.filter_append] at hr
    exact (havailable r).symm.trans (List.mem_filter.mp hr).2
  · change r ∈ (s.pendingResolutions.filter fun r => ¬available r) ++
      (s.pendingOptionalResolutions.filter fun r => ¬available r) at hr
    rw [← List.filter_append] at hr
    have hnot : ¬ available r = true := of_decide_eq_true (List.mem_filter.mp hr).2
    exact (havailable r).symm.trans (Bool.not_eq_true _ ▸ hnot)
  · obtain ⟨hfirst, hdeps⟩ := h.invoked call hcall
    exact ⟨hfirst.trans hfront, hdeps⟩

theorem Accounted.addFeature (h : Accounted kinds [] s) (feature : φ) :
    Accounted kinds [] (Core.addFeature kinds s feature).1 := by
  unfold Core.addFeature
  split
  · exact h
  · exact ((h.split fun _ => rfl).callAll).report rfl

theorem Accounted.apply (h : Accounted kinds [] s) (call : Call τ φ) :
    Accounted kinds [] (call.apply kinds s) := by
  cases call with
  | exec program => exact h.exec program
  | addFeature feature => exact h.addFeature feature

variable (kinds) in
theorem accounted_empty : Accounted kinds [] ({} : Instance τ φ) := by
  refine ⟨rfl, fun r hr => ?_, List.Perm.refl _, fun r hr => ?_, fun r hr => ?_, fun call hcall => ?_,
    fun report hreport => ?_⟩
  · cases hr
  · cases hr
  · cases hr
  · cases hcall
  · cases hreport

/-! ### What becomes of callbacks and of their errors -/

variable (kinds) in
/-- Each callback is called once if all its dependencies are there, not before and not otherwise; and a
call that invoked a callback with an error returned one. -/
structure Injected (s : Instance τ φ) : Prop where
  calm : s.panicked = false
  once : ∀ id deps, s.registered[id]? = some deps →
    (s.invoked.map Prod.fst).count id = if foundAll kinds s.features deps then 1 else 0
  ready : ∀ call ∈ s.invoked, call.2 <+: s.features ∧
    ∃ deps, s.registered[call.1]? = some deps ∧ foundAll kinds call.2 deps = true
  noticed : ∀ report ∈ s.reports, (∃ err ∈ report.errs, err ≠ none) → report.returned ≠ none

/-- Where a callback fails, the last one of the same call fails. -/
def LastFails (s : Instance τ φ) : Prop :=
  ∀ report ∈ s.reports, (∃ err ∈ report.errs, err ≠ none) →
    ∃ err, report.errs.getLast? = some (some err)

theorem Accounted.count_invoked (h : Accounted kinds [] s) {id : Nat}
    (hregistered : s.registered[id]? = some deps) :
    (s.invoked.map Prod.fst).count id = if foundAll kinds s.features deps then 1 else 0 := by
  obtain ⟨hlt, -⟩ := List.getElem?_eq_some_iff.mp hregistered
  have hnodup := h.once.nodup_iff.mpr List.nodup_range
  have hmem : id ∈ s.invoked.map Prod.fst ∨ id ∈ s.waiting.map (·.id) :=
    List.mem_append.mp (h.once.mem_iff.mpr (List.mem_range.mpr hlt))
  cases hfound : foundAll kinds s.features deps with
  | true =>
      rw [if_pos rfl]
      refine List.count_eq_one_of_mem (List.nodup_append.mp hnodup).1 (hmem.resolve_right fun hwaits => ?_)
      obtain ⟨r, hr, rfl⟩ := List.mem_map.mp hwaits
      have hdeps : r.deps = deps := Option.some.inj ((h.known r hr).symm.trans hregistered)
      have hmissing := h.waits r hr
      rw [hdeps, hfound] at hmissing
      cases hmissing
  | false =>
      rw [if_neg Bool.false_ne_true, List.count_eq_zero]
      intro hinvoked
      obtain ⟨call, hcall, rfl⟩ := List.mem_map.mp hinvoked
      obtain ⟨hfront, found, hknown, hready⟩ := h.invoked call hcall
      obtain rfl : found = deps := Option.some.inj (hknown.symm.trans hregistered)
      rw [foundAll_mono hready hfront.subset] at hfound
      cases hfound

theorem lastError_ne_none {errs : List (Option Error)} :
    lastError errs ≠ none ↔ ∃ err, errs.getLast? = some (some err) := by
  induction errs using List.reverseRecOn with
  | nil => simp [lastError]
  | append_singleton rest err =>
      cases err <;> simp [lastError]

theorem injected_iff_lastFails (h : Accounted kinds [] s) :
    Injected kinds s ↔ LastFails s := by
  have hnoticed : (∀ report ∈ s.reports, (∃ err ∈ report.errs, err ≠ none) → report.returned ≠ none) ↔
      LastFails s := by
    refine forall₂_congr fun report hreport => imp_congr_right fun _ => ?_
    rw [h.reported report hreport, lastError_ne_none]
  rw [← hnoticed]
  refine ⟨Injected.noticed, fun hall => ⟨h.calm, fun id deps => h.count_invoked, h.invoked, hall⟩⟩

/-! ### New instances -/

theorem Accounted.callInOrder (h : Accounted kinds [] s) (calls : List (Call τ φ)) :
    Accounted kinds [] (Core.callInOrder kinds calls s).1 := by
  induction calls generalizing s with
  | nil => exact h
  | cons call rest ih =>
      have happly := h.apply call
      rw [Call.apply] at happly
      rw [Core.callInOrder]
      split
      · next hresult => rwa [hresult] at happly
      · next hresult =>
          rw [hresult] at happly
          exact ih happly

theorem Accounted.addEssential (h : Accounted kinds [] s) (essential : List (τ × φ)) :
    Accounted kinds [] (Core.addEssential kinds essential s).1 := by
  induction essential generalizing s with
  | nil => exact h
  | cons entry rest ih =>
      obtain ⟨t, feature⟩ := entry
      have hadd := h.addFeature feature
      rw [Core.addEssential]
      split
      · exact ih h
      · split
        · next hresult => rwa [hresult] at hadd
        · next hresult =>
            rw [hresult] at hadd
            exact ih hadd

theorem accounted_new {essential : List (τ × φ)} {config : Config τ φ}
    (hnew : new kinds essential config = .ok s) : Accounted kinds [] s := by
  have happs := (accounted_empty kinds).callInOrder (config.app.flatMap App.calls)
  unfold new at hnew
  split at hnew
  · cases hnew
  · next hresult =>
      rw [hresult] at happs
      have hessential := happs.addEssential essential
      split at hnew
      · cases hnew
      · next hresult =>
          rw [hresult] at hessential
          have hhandlers := hessential.callInOrder (config.handlers.map Call.exec)
          split at hnew
          · cases hnew
          · split at hnew
            · cases hnew
            · next hresult =>
                rw [hresult] at hhandlers
                cases hnew
                exact hhandlers

/-- **When no error is lost.** Callbacks are always called as they should. Their errors are all noticed
exactly if, wherever a feature makes several callbacks available and one of them fails, the last one fails
as well; and the same holds for an instance that `New` returns. -/
theorem injected_iff (calls : List (Call τ φ)) (essential : List (τ × φ)) (config : Config τ φ) :
    (Injected kinds (Transition.run (Call.apply kinds) {} calls) ↔
      LastFails (Transition.run (Call.apply kinds) {} calls)) ∧
    ∀ s, new kinds essential config = .ok s → (Injected kinds s ↔ LastFails s) := by
  have hrun := Transition.run_induction ({} : Instance τ φ) (accounted_empty kinds)
    (fun _ call h => h.apply call) calls
  exact ⟨injected_iff_lastFails hrun, fun s hnew => injected_iff_lastFails (accounted_new hnew)⟩

/-- Features that are their own types. -/
def boolKinds : Kinds Bool Bool := ⟨id, fun feature t => feature = t, fun _ => decide_eq_true rfl⟩

/-- Two callbacks wait for the same feature, and the first of them fails. -/
def failingConfig : Config Bool Bool :=
  { app :=
      [⟨none, .require [true] false (fun _ => .done (some .closedPipe)) .done, none⟩,
        ⟨none, .require [true] false (fun _ => .done none) .done, none⟩,
        ⟨none, .done none, some true⟩]
    handlers := [] }

/-- An instance whose initialisation failed. -/
theorem not_injected_failing : ∃ s, new boolKinds [] failingConfig = .ok s ∧ ¬ Injected boolKinds s := by
  refine ⟨{
    features := [true]
    registered := [[true], [true]]
    invoked := [(0, [true]), (1, [true])]
    reports := [⟨[], none⟩, ⟨[], none⟩, ⟨[some .closedPipe, none], none⟩] }, ?_, fun h => ?_⟩
  · simp [new, failingConfig, boolKinds, App.calls, callInOrder, Call.result, Program.exec, addFeature,
      callAll, foundAll, getFeature, inputs, addEssential, lastError, Instance.register,
      Instance.suspend, Instance.invoke, Instance.report]
  · exact h.noticed ⟨[some .closedPipe, none], none⟩ (by simp) ⟨_, List.mem_cons_self, by simp⟩ rfl

end V2RootCore.Core
