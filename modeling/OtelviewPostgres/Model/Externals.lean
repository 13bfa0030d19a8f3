import OtelviewPostgres.Model.Attributes
import OtelviewPostgres.Relational.Transaction

/-!
# What the storage code relies on

The protobuf codec, the rendering of doubles, the Unicode tables and the database server are
not part of the storage code. They are parameters here, and the results that need one of their
properties name it.
-/

namespace OtelviewPostgres

/-- A protobuf message codec. -/
structure Codec (α : Type) where
  encodeToVec : α → Bytes
  decode : Bytes → Option α

/-- Decoding undoes encoding. -/
def Codec.Lossless {α : Type} (c : Codec α) : Prop := ∀ a, c.decode (c.encodeToVec a) = some a

structure Externals where
  traces : Codec TracesData
  logs : Codec LogsData
  metrics : Codec MetricsData
  /-- The JSON text of a finite double. -/
  floatText : F64 → String
  /-- The decimal the database stores for that text. -/
  floatDigits : F64 → Jsonb.Numeric
  /-- The tables of the standard library that `{:?}` goes by. -/
  charTables : CharTables

/-- Codecs that keep nothing, for runs that read nothing back. -/
def Externals.inert : Externals where
  traces := ⟨fun _ => [], fun _ => none⟩
  logs := ⟨fun _ => [], fun _ => none⟩
  metrics := ⟨fun _ => [], fun _ => none⟩
  floatText := fun _ => ""
  floatDigits := fun _ => ⟨0, 0⟩
  charTables := ⟨fun _ => false, fun _ => true⟩

/-- What the database decides about one write: the calls that fail for a reason outside
the statement, and the rows whose values it cannot store. -/
structure Server (ρ : Type) where
  faults : Relational.Faults Error := {}
  refuses : ρ → Option Error := fun _ => none

/-- A server that fails no call. It may still refuse a row. -/
def Server.Steady {ρ : Type} (server : Server ρ) : Prop := server.faults = {}

/-- A message together with the part of its surroundings that its payload keeps. -/
structure InContext (α : Type) where
  resource : Option Resource
  resourceSchemaUrl : String
  scope : Option InstrumentationScope
  scopeSchemaUrl : String
  item : α

def resourceAttributes (resource : Option Resource) : Json :=
  attributesToJson ((resource.map Resource.attributes).getD [])

def scopeAttributes (scope : Option InstrumentationScope) : Json :=
  attributesToJson ((scope.map InstrumentationScope.attributes).getD [])

end OtelviewPostgres
