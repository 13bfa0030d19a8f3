import OtelviewPostgres.Model.Spans
import OtelviewPostgres.Relational.IdentityTable

/-!
# Writing records

The part `write_logs` and `write_metrics` have in common: rows that have no key of their
own are appended in chunks inside one transaction, which is not opened for no rows.
-/

namespace OtelviewPostgres

open Relational

variable {ρ : Type}

/-- One multi-row `INSERT`. -/
def insertRecords (server : Server ρ) (chunk : List ρ) (t : IdentityTable ρ) : Except Error (IdentityTable ρ) :=
  match chunk.findSome? server.refuses with
  | some e => .error e
  | none => .ok (t.insertAll chunk)

/-- The chunks the rows are written in, one statement each. -/
def recordChunks (rows : List ρ) : List (List ρ) := chunks insertChunkRows rows

/-- Write the rows an export was collected into, where the collection succeeded. -/
def writeRecords (server : Server ρ) (collected : Except Error (List ρ)) (t : IdentityTable ρ) :
    Except Error ℕ × IdentityTable ρ :=
  match collected with
  | .error e => (.error e, t)
  | .ok rows =>
    if rows.isEmpty then (.ok 0, t)
    else
      match runTransaction server.faults ((recordChunks rows).map (insertRecords server)) t with
      | (.error e, t') => (.error e, t')
      | (.ok (), t') => (.ok rows.length, t')

end OtelviewPostgres
