import V2RootCore.Go.Talk
import V2RootCore.Proof.Go.Io

/-!
# What a talk without an error has done
-/

namespace V2RootCore.Go

open Dialogue

theorem readFull_eq_ok {n : Nat} {input rest : Bytes} {data : List.Vector UInt8 n} :
    readFull n input = .ok (data, rest) ↔ input = data.toList ++ rest := by
  constructor
  · intro h
    rw [readFull] at h
    split_ifs at h with hlength
    obtain ⟨rfl, rfl⟩ := Prod.mk.inj (Except.ok.inj h)
    exact (List.take_append_drop n input).symm
  · rintro rfl
    exact readFull_of_length data.2 rest

namespace Talk

variable {α β : Type} {talk : Talk α} {f : α → Talk β} {conn conn' : Conn}

theorem run_bind (talk : Talk α) (f : α → Talk β) (conn : Conn) :
    (talk >>= f).run conn = (next f (talk.run conn).1).run (talk.run conn).2 :=
  Process.run_bind readFull (next f) talk conn

theorem run_bind_eq_ok {b : β} :
    (talk >>= f).run conn = (.ok b, conn') ↔
      ∃ a conn₁, talk.run conn = (.ok a, conn₁) ∧ (f a).run conn₁ = (.ok b, conn') := by
  rw [run_bind]
  obtain ⟨result, conn₁⟩ := talk.run conn
  cases result with
  | error err =>
      refine iff_of_false (fun h => ?_) ?_
      · cases (Prod.mk.inj h).1
      · rintro ⟨a, conn₁, h, -⟩
        cases (Prod.mk.inj h).1
  | ok a =>
      refine ⟨fun h => ⟨a, conn₁, rfl, h⟩, ?_⟩
      rintro ⟨a', conn₂, h, hrest⟩
      cases h
      exact hrest

theorem run_pure_eq_ok {a b : α} :
    (Pure.pure a : Talk α).run conn = (.ok b, conn') ↔ a = b ∧ conn = conn' := by
  rw [show (Pure.pure a : Talk α).run conn = (.ok a, conn) from rfl, Prod.mk.injEq, Except.ok.injEq]

theorem run_fail_ne_ok {err : Error} {a : α} : (fail err : Talk α).run conn ≠ (.ok a, conn') := by
  intro h
  cases (Prod.mk.inj h).1

theorem run_read_eq_ok {n : Nat} {data : List.Vector UInt8 n} :
    (read n).run conn = (.ok data, conn') ↔
      conn.input = data.toList ++ conn'.input ∧ conn' = { conn with input := conn'.input } := by
  have hrun : (read n).run conn =
      match readFull n conn.input with
      | .ok (data, rest) => (.ok data, { conn with input := rest })
      | .error err => (.error err, { conn with input := [] }) := by
    simp only [run, read, Process.run]
    cases readFull n conn.input with
    | error err => rfl
    | ok result => rfl
  rw [hrun]
  cases hread : readFull n conn.input with
  | error err =>
      refine iff_of_false (fun h => ?_) ?_
      · cases (Prod.mk.inj h).1
      · rintro ⟨h, -⟩
        rw [readFull_eq_ok.mpr h] at hread
        cases hread
  | ok result =>
      obtain ⟨data', rest⟩ := result
      rw [readFull_eq_ok] at hread
      constructor
      · intro h
        cases h
        exact ⟨hread, rfl⟩
      · rintro ⟨hinput, hconn⟩
        rw [hread] at hinput
        obtain ⟨hdata, hrest⟩ := List.append_inj hinput (by simp)
        rw [hconn, ← hrest]
        have hdata' : data' = data := Subtype.ext hdata
        rw [hdata']

theorem run_orFail_eq_ok {text : Bytes} {a : α} :
    (talk.orFail text).run conn = (.ok a, conn') ↔ talk.run conn = (.ok a, conn') := by
  have hrun : (talk.orFail text).run conn = (wrap text (talk.run conn).1, (talk.run conn).2) :=
    Process.run_bind readFull _ talk conn
  rw [hrun]
  obtain ⟨result, conn₁⟩ := talk.run conn
  cases result with
  | ok b => rfl
  | error err =>
      refine iff_of_false (fun h => ?_) (fun h => by cases (Prod.mk.inj h).1)
      have hwrap := (Prod.mk.inj h).1
      cases err <;> cases hwrap

theorem run_write_eq_ok {data : Bytes} {result : Unit} :
    (write data).run conn = (.ok result, conn') ↔
      conn.outcome conn.written.length = none ∧
        conn' = { conn with written := conn.written ++ [data] } := by
  have hrun : (write data).run conn =
      ((conn.outcome conn.written.length).elim (.ok ()) .error,
        { conn with written := conn.written ++ [data] }) := rfl
  rw [hrun, Prod.mk.injEq]
  cases conn.outcome conn.written.length with
  | none => exact ⟨fun h => ⟨rfl, h.2.symm⟩, fun h => ⟨rfl, h.2.symm⟩⟩
  | some err => exact iff_of_false (fun h => by cases h.1) (fun h => by cases h.1)

end Talk

end V2RootCore.Go
