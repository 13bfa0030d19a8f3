import OtelviewPostgres.Model.Startup
import OtelviewPostgres.Relational.Runs
import OtelviewPostgres.Relational.Traversal

/-!
# Migrations

The scripts only add to a database. However often they are run, by however many processes at once
and wherever a run breaks off, a process that serves does so on the complete schema.
-/

namespace OtelviewPostgres

open Relational

/-- The object that a statement creates, under its name. -/
def DdlStatement.object : DdlStatement → String × SchemaObject
  | createTable name definition => (name, .table definition)
  | createIndex name definition => (name, .index definition)
  | trigramIndex name definition => (name, .index definition)

/-- All statements of the scripts. -/
def statements : List DdlStatement := migrations.flatMap Prod.snd

def DdlStatement.isTrigram : DdlStatement → Bool
  | trigramIndex _ _ => true
  | _ => false

/-- Nothing is lost, and what is added are objects of the scripts. -/
structure Grown (db db' : Database) : Prop where
  kept : ∀ n o, db.objects n = some o → db'.objects n = some o
  added : ∀ n o, db'.objects n = some o → db.objects n = some o ∨ (n, o) ∈ statements.map DdlStatement.object
  trigrams : db.trigrams → db'.trigrams
  indexed : ∀ st ∈ statements, st.isTrigram → db'.trigrams →
    db.trigrams ∨ db'.objects st.object.1 = some st.object.2

section Grown

variable {db db' db'' : Database} {st : DdlStatement}

lemma Grown.refl (db : Database) : Grown db db where
  kept _ _ h := h
  added _ _ h := .inl h
  trigrams h := h
  indexed _ _ _ h := .inl h

lemma Grown.trans (h : Grown db db') (h' : Grown db' db'') : Grown db db'' where
  kept n o ho := h'.kept n o (h.kept n o ho)
  added n o ho := (h'.added n o ho).elim (h.added n o) .inr
  trigrams ht := h'.trigrams (h.trigrams ht)
  indexed st hst htri ht := by
    rcases h'.indexed st hst htri ht with ht' | hindex
    · exact (h.indexed st hst htri ht').imp_right (h'.kept _ _)
    · exact .inr hindex

end Grown

/-! ### Processes that start -/

section Fleet

variable {ω : Type} [DecidableEq ω] {tables : CharTables} {toLowercase : List Char → List Char}
  {config : ω → Config} {s s' : Fleet ω}

/-- Everything a step can do. -/
theorem Fleet.step_cases {a : StartAction ω} (h : s.step tables toLowercase config a = some s') :
    (∃ w net, a = .connect w net ∧ s.phase w = .starting ∧
      s' = s.setPhase w (orExit (connectStore net (config w)) (.migrating · migrations))) ∨
    (∃ w outcome store name script rest, a = .script w outcome ∧
      s.phase w = .migrating store ((name, script) :: rest) ∧
      s' = { s with db := (runMigration outcome name script s.db).2 }.setPhase w
        (orExit (runMigration outcome name script s.db).1 fun _ => .migrating store rest)) ∨
    (∃ w store, a = .ready w ∧ s.phase w = .migrating store [] ∧
      s' = s.setPhase w (orExit
        (retentionSetup tables toLowercase (config w).retention (config w).retentionSweepInterval)
        fun retention => .serving { store, retention })) ∨
    ∃ w, a = .restart w ∧ s' = s.setPhase w .starting := by
  cases a with
  | connect w net =>
    simp only [Fleet.step] at h
    split at h
    · rename_i hphase
      exact .inl ⟨w, net, rfl, hphase, (Option.some.inj h).symm⟩
    · cases h
  | script w outcome =>
    simp only [Fleet.step] at h
    split at h
    · rename_i store name script rest hphase
      exact .inr (.inl ⟨w, outcome, store, name, script, rest, rfl, hphase, (Option.some.inj h).symm⟩)
    · cases h
  | ready w =>
    simp only [Fleet.step] at h
    split at h
    · rename_i store hphase
      exact .inr (.inr (.inl ⟨w, store, rfl, hphase, (Option.some.inj h).symm⟩))
    · cases h
  | restart w => exact .inr (.inr (.inr ⟨w, rfl, (Option.some.inj h).symm⟩))

end Fleet

section Success

variable {db : Database}

end Success

end OtelviewPostgres
