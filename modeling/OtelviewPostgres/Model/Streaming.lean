import OtelviewPostgres.Channels.Pipe
import OtelviewPostgres.Model.Server

/-!
# The tasks behind the streams

A handler that answers with a stream spawns a task that feeds a channel, and hands the client the
other end of it: `StorageServer::stream_ids` and `stream_chunks` as they run.
-/

namespace OtelviewPostgres

open Channels Relational

/-- The channel of `stream_ids`. -/
def idsCapacity : ℕ := 16

/-- The channel of `stream_chunks`. -/
def chunksCapacity : ℕ := 4

section Tasks

variable {α : Type}

def spanMessageOf (env : Externals) (span : StoredSpan) : Except Status TracesData :=
  (decodePayload env.traces span.payload).mapError internal

/-- The task that `stream_ids` spawns, and its client. -/
def streamIdsTask (spans : List StoredSpan) : Pipe StoredSpan (Except Status TracesData) := .start spans

def streamIdsStep (env : Externals) :
    Pipe StoredSpan (Except Status TracesData) → PipeAction → Option (Pipe StoredSpan (Except Status TracesData)) :=
  Pipe.step (spanMessageOf env) idsCapacity

def chunkMessage (merge : List Bytes → Except Error α) (chunk : List Bytes) : Except Status α :=
  (merge chunk).mapError internal

/-- The task that `stream_chunks` spawns, and its client. -/
def streamChunksTask (payloads : List Bytes) : Pipe (List Bytes) (Except Status α) := .start (chunks chunkSize payloads)

def streamChunksStep (merge : List Bytes → Except Error α) :
    Pipe (List Bytes) (Except Status α) → PipeAction → Option (Pipe (List Bytes) (Except Status α)) :=
  Pipe.step (chunkMessage merge) chunksCapacity

end Tasks

end OtelviewPostgres
