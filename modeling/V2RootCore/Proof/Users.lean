import V2RootCore.Proof.Go.Map
import V2RootCore.Transition
import V2RootCore.Trojan.Validator
import V2RootCore.Vless.Validator

/-!
# A validator knows the users that were added

A user who is deleted takes the key along. So the validator knows all users who were added and not deleted
since, as long as nobody else has the key of a user who is deleted.
-/

namespace V2RootCore

open Go Transition

inductive UserCall (υ : Type) where
  | add (u : υ)
  | del (e : Bytes)

/-- A validator, and the users who were added and not deleted since. -/
structure Registered (κ υ : Type) where
  validator : Users κ υ := {}
  live : List υ := []

namespace Registered

variable {ι κ υ : Type} [DecidableEq κ] (access : Access ι κ υ)

def step (st : Registered κ υ) : UserCall υ → Registered κ υ
  | .add u =>
      match st.validator.add access u with
      | .ok v => { validator := v, live := st.live ++ [u] }
      | .error _ => st
  | .del e =>
      match st.validator.del access e with
      | .ok v =>
          { validator := v
            live := st.live.filter fun u => access.toLower (access.email u) ≠ access.toLower e }
      | .error _ => st

/-- A user is found exactly by what a live user has, and it is one of those. -/
structure Coherent (st : Registered κ υ) : Prop where
  sound : ∀ id u, st.validator.get access id = some u →
    u ∈ st.live ∧ access.process (access.id u) = access.process id
  complete : ∀ id, ∀ u ∈ st.live, access.process (access.id u) = access.process id →
    (st.validator.get access id).isSome

/-- No other live user has the key of the user who is deleted. -/
def DeletesAlone (st : Registered κ υ) : UserCall υ → Prop
  | .add _ => True
  | .del e => e ≠ [] → ∀ u ∈ st.live, access.toLower (access.email u) = access.toLower e →
      ∀ other ∈ st.live, access.toLower (access.email other) ≠ access.toLower e →
        access.process (access.id other) ≠ access.process (access.id u)

variable {access} {st : Registered κ υ}

/-- The first map has the live users with an e-mail. -/
def Named (access : Access ι κ υ) (st : Registered κ υ) : Prop :=
  ∀ e u, st.validator.email.lookup e = some u ↔
    u ∈ st.live ∧ access.email u ≠ [] ∧ access.toLower (access.email u) = e

theorem get_store (v : Users κ υ) (u : υ) (id : ι) :
    (v.store (access.process (access.id u)) u).get access id =
      if access.process id = access.process (access.id u) then some u else v.get access id :=
  Map.lookup_filter_append _ _ _ _

omit [DecidableEq κ] in
theorem Named.lookup_eq (h : Named access st) {e : Bytes} (he : e ≠ []) {u : υ} (hu : u ∈ st.live)
    (hsame : access.toLower (access.email u) = access.toLower e) :
    st.validator.email.lookup (access.toLower e) = some u := by
  refine (h _ u).mpr ⟨hu, fun hempty => he ?_, hsame⟩
  rwa [(access.toLower_eq_nil _).mpr hempty, eq_comm, access.toLower_eq_nil] at hsame

/-- What a call does: it fails, or it stores a user, or it deletes the one with the e-mail. -/
inductive Steps (access : Access ι κ υ) (st : Registered κ υ) : UserCall υ → Registered κ υ → Prop where
  | failed (call : UserCall υ) (halone : DeletesAlone access st call) : Steps access st call st
  | stored {u : υ} {next : Registered κ υ} (hlive : next.live = st.live ++ [u])
      (hget : ∀ id, next.validator.get access id =
        if access.process id = access.process (access.id u) then some u else st.validator.get access id)
      (hnamed : Named access next) : Steps access st (.add u) next
  | deleted {e : Bytes} {u : υ} {next : Registered κ υ} (he : e ≠ [])
      (hlookup : st.validator.email.lookup (access.toLower e) = some u)
      (hlive : next.live = st.live.filter fun u => access.toLower (access.email u) ≠ access.toLower e)
      (hget : ∀ id, next.validator.get access id =
        if access.process id = access.process (access.id u) then none else st.validator.get access id)
      (hnamed : Named access next) : Steps access st (.del e) next

theorem steps (h : Named access st) (call : UserCall υ) : Steps access st call (st.step access call) := by
  cases call with
  | add u =>
      simp only [step, Users.add]
      split
      · next v hadd =>
          split at hadd
          · next hempty =>
              obtain rfl := Except.ok.inj hadd
              refine .stored rfl (get_store st.validator u) fun e user => ?_
              have hnamed := h e user
              grind [Users.store]
          · split at hadd
            · cases hadd
            · next hemail hnone =>
                obtain rfl := Except.ok.inj hadd
                refine .stored rfl (get_store _ u) fun e user => ?_
                have hnamed := h e user
                have hset := Map.lookup_filter_append st.validator.email (access.toLower (access.email u)) e u
                grind [Users.store, Map.set]
      · exact .failed _ trivial
  | del e =>
      simp only [step, Users.del]
      split
      · next v hdel =>
          split at hdel
          · cases hdel
          · next he =>
              split at hdel
              · cases hdel
              · next u hlookup =>
                  obtain rfl := Except.ok.inj hdel
                  refine .deleted he hlookup rfl (fun id => Map.lookup_filter _ _ _) fun e' user => ?_
                  have hnamed := h e' user
                  have hfilter := Map.lookup_filter st.validator.email (access.toLower e) e'
                  grind
      · next err hdel =>
          refine .failed _ fun he u hu hemail => ?_
          simp [he, h.lookup_eq he hu hemail] at hdel

theorem Steps.named {call : UserCall υ} {next : Registered κ υ} (hstep : Steps access st call next)
    (h : Named access st) : Named access next := by
  cases hstep <;> assumption

theorem Steps.coherent_iff {call : UserCall υ} {next : Registered κ υ} (hstep : Steps access st call next)
    (h : Named access st) (hcoherent : Coherent access st) :
    Coherent access next ↔ DeletesAlone access st call := by
  cases hstep with
  | failed _ halone => exact iff_of_true hcoherent halone
  | @stored u _ hlive hget hnamed =>
      refine iff_of_true ⟨fun id user hfound => ?_, fun id user huser hkey => ?_⟩ trivial
      · have hsound := hcoherent.sound id user
        grind
      · have hcomplete := hcoherent.complete id user
        grind
  | @deleted e u _ he hlookup hlive hget hnamed =>
      obtain ⟨hu, hemail, hlower⟩ := (h _ u).mp hlookup
      constructor
      · -- whoever else has the key could not be found any more
        intro hnext _ user huser hsame other hother hdiffers hkey
        obtain rfl : u = user := Option.some.inj (hlookup.symm.trans (h.lookup_eq he huser hsame))
        have hleft : other ∈ _ := hlive ▸ List.mem_filter.mpr ⟨hother, decide_eq_true hdiffers⟩
        have hfound := hnext.complete (access.id u) other hleft hkey
        rw [hget, if_pos rfl] at hfound
        cases hfound
      · intro halone
        refine ⟨fun id user hfound => ?_, fun id user huser hkey => ?_⟩
        · rw [hget] at hfound
          split at hfound
          · cases hfound
          · next hne =>
              obtain ⟨huser, hkey⟩ := hcoherent.sound id user hfound
              refine ⟨?_, hkey⟩
              rw [hlive, List.mem_filter]
              refine ⟨huser, decide_eq_true fun hsame => hne ?_⟩
              obtain rfl : u = user := Option.some.inj (hlookup.symm.trans (h.lookup_eq he huser hsame))
              exact hkey.symm
        · rw [hlive, List.mem_filter, decide_eq_true_iff] at huser
          rw [hget, if_neg fun heq => halone he u hu hlower user huser.1 huser.2 (hkey.trans heq)]
          exact hcoherent.complete id user huser.1 hkey

theorem coherent_iff_deletesAlone (access : Access ι κ υ) (calls : List (UserCall υ)) :
    (∀ first, first <+: calls → Coherent access (Transition.run (step access) {} first)) ↔
      Along (step access) (DeletesAlone access) {} calls :=
  forall_prefix_iff_along (I := Named access)
    (fun _ call h _ _ => (steps h call).named h) (fun _ call h hcoherent => (steps h call).coherent_iff h hcoherent)
    calls _ (fun _ _ => iff_of_false nofun nofun) ⟨nofun, nofun⟩

end Registered

section

variable (toLower : Bytes → Bytes) (htoLower : ∀ s, toLower s = [] ↔ s = [])

/-- **When the validators are coherent.** In all states of a run a user is found by an ID or a key exactly if
a user with it was added and not deleted since, and it is one of those, exactly if no user is deleted
while another one with the same ID or key is there. -/
theorem validators_coherent_iff :
    (∀ calls, (∀ first, first <+: calls → Registered.Coherent (Vless.MemoryValidator.access toLower htoLower)
        (Transition.run (Registered.step (Vless.MemoryValidator.access toLower htoLower)) {} first)) ↔
      Along (Registered.step (Vless.MemoryValidator.access toLower htoLower))
        (Registered.DeletesAlone (Vless.MemoryValidator.access toLower htoLower)) {} calls) ∧
    ∀ calls, (∀ first, first <+: calls → Registered.Coherent (Trojan.Validator.access toLower htoLower)
        (Transition.run (Registered.step (Trojan.Validator.access toLower htoLower)) {} first)) ↔
      Along (Registered.step (Trojan.Validator.access toLower htoLower))
        (Registered.DeletesAlone (Trojan.Validator.access toLower htoLower)) {} calls :=
  ⟨Registered.coherent_iff_deletesAlone _, Registered.coherent_iff_deletesAlone _⟩

end

/-- Two users are added and the first is deleted again. -/
theorem coherent_two_users : (∀ s : Bytes, id s = [] ↔ s = []) ∧
    ∀ first, first <+: [UserCall.add { account := { id := List.Vector.replicate 16 1 }, email := [97] },
        .add { account := { id := List.Vector.replicate 16 2 }, email := [98] }, .del [97]] →
      Registered.Coherent (Vless.MemoryValidator.access id fun _ => Iff.rfl)
        (Transition.run (Registered.step (Vless.MemoryValidator.access id fun _ => Iff.rfl)) {} first) := by
  refine ⟨fun _ => Iff.rfl, ((validators_coherent_iff id fun _ => Iff.rfl).1 _).mpr ⟨trivial, trivial, ?_, trivial⟩⟩
  show _ ≠ [] → _
  decide

/-- Two users have one ID, and the first is deleted. -/
theorem not_coherent_shared_id : ¬ Registered.Coherent (Vless.MemoryValidator.access id fun _ => Iff.rfl)
    (Transition.run (Registered.step (Vless.MemoryValidator.access id fun _ => Iff.rfl)) {}
      [.add { account := { id := List.Vector.replicate 16 1 }, email := [97] },
        .add { account := { id := List.Vector.replicate 16 1 }, email := [98] }, .del [97]]) := by
  intro h
  have hfound := h.complete (List.Vector.replicate 16 1)
    { account := { id := List.Vector.replicate 16 1 }, email := [98] } (by decide) rfl
  revert hfound
  decide

end V2RootCore
