import V2RootCore.Go.Io
import V2RootCore.Transition

/-!
# Features of an instance

Callbacks that are called once the features they depend on are there. A callback may itself require
features, and goes on with what that returned; so a callback is a tree of such requests that ends with an
error or without one. Callbacks are numbered in the order in which they are registered, and the instance
keeps a record of their calls that the program does not have.
-/

namespace V2RootCore.Core

open Go

/-- What reflection says about features. A feature implements the type it gives. -/
structure Kinds (τ φ : Type) where
  typeOf : φ → τ
  assignableTo : φ → τ → Bool
  assignableTo_typeOf : ∀ feature, assignableTo feature (typeOf feature) = true

/-- What a callback, or the creation of an object, does with the instance. -/
inductive Program (τ φ : Type) where
  | done (err : Option Error)
  | require (deps : List τ) (optional : Bool) (callback : List φ → Program τ φ)
      (next : Option Error → Program τ φ)

structure Resolution (τ φ : Type) where
  id : Nat
  deps : List τ
  callback : List φ → Program τ φ

/-- A call of `RequireFeatures` or `AddFeature`: what the callbacks it invoked returned, in their order,
and what it returned itself. -/
structure Report where
  errs : List (Option Error)
  returned : Option Error
  deriving DecidableEq

structure Instance (τ φ : Type) where
  features : List φ := []
  pendingResolutions : List (Resolution τ φ) := []
  pendingOptionalResolutions : List (Resolution τ φ) := []
  running : Bool := false
  panicked : Bool := false
  /-- The dependencies of the callbacks. -/
  registered : List (List τ) := []
  /-- Each call of a callback, with the features that were there. -/
  invoked : List (Nat × List φ) := []
  reports : List Report := []

section Features

variable {τ φ : Type} [DecidableEq τ] (kinds : Kinds τ φ)

def getFeature (allFeatures : List φ) (t : τ) : Option φ :=
  allFeatures.find? fun feature => kinds.typeOf feature = t

def foundAll (allFeatures : List φ) (deps : List τ) : Bool :=
  deps.all fun dep => (getFeature kinds allFeatures dep).isSome

/-- The arguments of a callback; it panics if there are not enough of them. -/
def inputs (allFeatures : List φ) (deps : List τ) : Option (List φ) :=
  let input := deps.filterMap fun dep => allFeatures.find? fun feature => kinds.assignableTo feature dep
  if input.length ≠ deps.length then none else some input

namespace Instance

def register (s : Instance τ φ) (deps : List τ) : Instance τ φ :=
  { s with registered := s.registered ++ [deps] }

def suspend (s : Instance τ φ) (optional : Bool) (r : Resolution τ φ) : Instance τ φ :=
  if optional then { s with pendingOptionalResolutions := s.pendingOptionalResolutions ++ [r] }
  else { s with pendingResolutions := s.pendingResolutions ++ [r] }

def invoke (s : Instance τ φ) (id : Nat) : Instance τ φ :=
  { s with invoked := s.invoked ++ [(id, s.features)] }

def report (s : Instance τ φ) (errs : List (Option Error)) (returned : Option Error) : Instance τ φ :=
  { s with reports := s.reports ++ [⟨errs, returned⟩] }

def panics (s : Instance τ φ) : Instance τ φ := { s with panicked := true }

end Instance

/-- A program runs; a request is `RequireFeatures`. -/
def Program.exec : Program τ φ → Instance τ φ → Instance τ φ × Option Error
  | .done err, s => (s, err)
  | .require deps optional callback next, s =>
      let id := s.registered.length
      let s := s.register deps
      if foundAll kinds s.features deps then
        match inputs kinds s.features deps with
        | none => (s.panics, some .panicked)
        | some input =>
            let result := (callback input).exec (s.invoke id)
            (next result.2).exec (result.1.report [result.2] result.2)
      else (next none).exec ((s.suspend optional ⟨id, deps, callback⟩).report [] none)

/-- The callbacks of resolutions one after the other, and what each returned. -/
def callAll : List (Resolution τ φ) → Instance τ φ → Instance τ φ × List (Option Error)
  | [], s => (s, [])
  | r :: rest, s =>
      match inputs kinds s.features r.deps with
      | none => (s.panics, [some .panicked])
      | some input =>
          let result := (r.callback input).exec kinds (s.invoke r.id)
          let others := callAll rest result.1
          (others.1, result.2 :: others.2)

/-- Each callback sets the error. -/
def lastError (errs : List (Option Error)) : Option Error := errs.foldl (fun _ err => err) none

def addFeature (s : Instance τ φ) (feature : φ) : Instance τ φ × Option Error :=
  if s.running then (s, none)
  else
    let features := s.features ++ [feature]
    let available (r : Resolution τ φ) : Bool := foundAll kinds features r.deps
    let availableResolution :=
      s.pendingResolutions.filter available ++ s.pendingOptionalResolutions.filter available
    let result := callAll kinds availableResolution
      { s with
        features
        pendingResolutions := s.pendingResolutions.filter fun r => ¬available r
        pendingOptionalResolutions := s.pendingOptionalResolutions.filter fun r => ¬available r }
    (result.1.report result.2 (lastError result.2), lastError result.2)

/-- What is done to an instance before it is started. -/
inductive Call (τ φ : Type) where
  | exec (program : Program τ φ)
  | addFeature (feature : φ)

def Call.result (s : Instance τ φ) : Call τ φ → Instance τ φ × Option Error
  | .exec program => program.exec kinds s
  | .addFeature feature => Core.addFeature kinds s feature

def Call.apply (s : Instance τ φ) (call : Call τ φ) : Instance τ φ := (call.result kinds s).1

/-! ### A new instance -/

/-- Settings that may not be readable, the creation of an object from them, and the object if it is a
feature. -/
structure App (τ φ : Type) where
  settings : Option Error
  createObject : Program τ φ
  feature : Option φ

/-- The handlers of both directions are created and added in the end. -/
structure Config (τ φ : Type) where
  app : List (App τ φ)
  handlers : List (Program τ φ)

/-- Calls up to the first that returns an error. -/
def callInOrder : List (Call τ φ) → Instance τ φ → Instance τ φ × Option Error
  | [], s => (s, none)
  | call :: rest, s =>
      match call.result kinds s with
      | (s, some err) => (s, some err)
      | (s, none) => callInOrder rest s

def App.calls (app : App τ φ) : List (Call τ φ) :=
  match app.settings with
  | some err => [.exec (.done (some err))]
  | none => .exec app.createObject :: (app.feature.map Call.addFeature).toList

/-- The loop that adds what is missing of the features an instance always has. -/
def addEssential : List (τ × φ) → Instance τ φ → Instance τ φ × Option Error
  | [], s => (s, none)
  | (t, feature) :: rest, s =>
      if (getFeature kinds s.features t).isSome then addEssential rest s
      else
        match addFeature kinds s feature with
        | (s, some err) => (s, some err)
        | (s, none) => addEssential rest s

/-- `New`, with the features that `initInstanceWithConfig` adds if they are missing. -/
def new (essentialFeatures : List (τ × φ)) (config : Config τ φ) : Except Error (Instance τ φ) :=
  match callInOrder kinds (config.app.flatMap App.calls) {} with
  | (_, some err) => .error err
  | (s, none) =>
      match addEssential kinds essentialFeatures s with
      | (_, some err) => .error err
      | (s, none) =>
          if s.pendingResolutions ≠ [] then
            .error (.new (ascii "not all dependencies are resolved."))
          else
            match callInOrder kinds (config.handlers.map Call.exec) s with
            | (_, some err) => .error err
            | (s, none) => .ok s

end Features

end V2RootCore.Core
