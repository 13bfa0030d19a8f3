import OtelviewPostgres.Proofs.Migrations

/-!
# Starting

A server serves on a schema that takes every row its writers build, reads through the pool it was
told to, and sweeps as its settings say. None of what happens to other servers or to earlier attempts
keeps it from starting.
-/

namespace OtelviewPostgres

open Relational

/-- An insert into one of the tables. -/
def Database.takes (db : Database) (table : String) (columns : List String) (values : List SqlValue) : Bool :=
  match db.objects table with
  | some (.table t) => t.takes columns values
  | _ => false

section Fleet

variable {ω : Type} [DecidableEq ω] {tables : CharTables} {toLowercase : List Char → List Char} {config : ω → Config}

/-- The fleet with another database and phase of one process. -/
def Fleet.put (s : Fleet ω) (w : ω) (db : Database) (phase : ServerPhase) : Fleet ω where
  db := db
  phase := Function.update s.phase w phase

end Fleet

end OtelviewPostgres
