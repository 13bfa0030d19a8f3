import OtelviewPostgres.Model.RetentionConfig
import OtelviewPostgres.Model.Schema

/-!
# Servers that start

What `main` does before it serves, for any number of processes on one database: connect, run the
scripts of `migrate` one after another, and read the retention. A process may be stopped and started
again at any time, and the scripts of several may run in any order.
-/

namespace OtelviewPostgres

structure Config where
  databaseUrl : String
  databaseReadUrl : Option String := none
  listenAddr : String := "0.0.0.0:17271"
  databaseMaxConnections : UInt32 := 20
  maxSearchDepth : UInt64 := 1000
  retention : Option String := none
  retentionSweepInterval : String := "1h"

structure Pool where
  url : String
  maxConnections : UInt32
  /-- `default_transaction_read_only` -/
  readOnly : Bool := false
deriving DecidableEq

/-- The fields of `Store`. -/
structure StoreHandle where
  primary : Pool
  reader : Pool
  maxSearchDepth : UInt64

def StoreHandle.new (primary : Pool) (reader : Option Pool) (maxSearchDepth : UInt64) : StoreHandle where
  primary := primary
  reader := reader.getD primary
  maxSearchDepth := maxSearchDepth

/-- What is wrong with an address or a connection string, and which connections fail. -/
structure Network where
  address : String → Option Error := fun _ => none
  options : String → Option Error := fun _ => none
  connection : String → Option Error := fun _ => none

def orFail (fault : Option Error) (context : String) : Except Error Unit :=
  match fault with
  | some e => .error (e.context context)
  | none => .ok ()

def connectStore (net : Network) (config : Config) : Except Error StoreHandle := do
  orFail (net.address config.listenAddr) "parse LISTEN_ADDR"
  orFail (net.connection config.databaseUrl) "connect to PostgreSQL from DATABASE_URL"
  let reader ←
    match config.databaseReadUrl.filter fun url => !url.isEmpty with
    | some url => do
      orFail (net.options url) "parse DATABASE_READ_URL"
      orFail (net.connection url) "connect to PostgreSQL from DATABASE_READ_URL"
      pure (some { url, maxConnections := config.databaseMaxConnections, readOnly := true })
    | none => pure none
  return .new { url := config.databaseUrl, maxConnections := config.databaseMaxConnections } reader
    config.maxSearchDepth

/-- What a process serves with: its store, and the retention and interval of its loop where it has one. -/
structure Service where
  store : StoreHandle
  retention : Option (UInt64 × UInt64)

inductive ServerPhase where
  | starting
  /-- Connected, with the scripts that are still to run. -/
  | migrating (store : StoreHandle) (rest : List (String × List DdlStatement))
  | serving (service : Service)
  | exited (e : Error)

structure Fleet (ω : Type) where
  db : Database
  phase : ω → ServerPhase

inductive StartAction (ω : Type) where
  | connect (w : ω) (net : Network)
  | script (w : ω) (outcome : ScriptOutcome)
  | ready (w : ω)
  | restart (w : ω)

section Fleet

variable {ω : Type} [DecidableEq ω]

def Fleet.setPhase (s : Fleet ω) (w : ω) (phase : ServerPhase) : Fleet ω :=
  { s with phase := Function.update s.phase w phase }

@[simp] lemma Fleet.db_setPhase (s : Fleet ω) (w : ω) (phase : ServerPhase) : (s.setPhase w phase).db = s.db := rfl

@[simp] lemma Fleet.phase_setPhase_self (s : Fleet ω) (w : ω) (phase : ServerPhase) :
    (s.setPhase w phase).phase w = phase := by
  simp [Fleet.setPhase]

lemma Fleet.phase_setPhase_of_ne (s : Fleet ω) {v w : ω} (h : v ≠ w) (phase : ServerPhase) :
    (s.setPhase w phase).phase v = s.phase v := by
  simp [Fleet.setPhase, h]

/-- An error ends the process. -/
def orExit {α : Type} (res : Except Error α) (phase : α → ServerPhase) : ServerPhase :=
  match res with
  | .ok a => phase a
  | .error e => .exited e

variable (tables : CharTables) (toLowercase : List Char → List Char) (config : ω → Config)

def Fleet.step (s : Fleet ω) : StartAction ω → Option (Fleet ω)
  | .connect w net =>
    match s.phase w with
    | .starting => some (s.setPhase w (orExit (connectStore net (config w)) (.migrating · migrations)))
    | _ => none
  | .script w outcome =>
    match s.phase w with
    | .migrating store ((name, script) :: rest) =>
      let (res, db) := runMigration outcome name script s.db
      some ({ s with db }.setPhase w (orExit res fun _ => .migrating store rest))
    | _ => none
  | .ready w =>
    match s.phase w with
    | .migrating store [] =>
      some (s.setPhase w (orExit
        (retentionSetup tables toLowercase (config w).retention (config w).retentionSweepInterval)
        fun retention => .serving { store, retention }))
    | _ => none
  | .restart w => some (s.setPhase w .starting)

end Fleet

end OtelviewPostgres
