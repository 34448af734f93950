import Carta.Mapfile.Render
import Carta.Text.Utf8

/-!
# Writing into a sink

A sink takes bytes in calls of limited size until it is full. A call may take less than it could, so
the rest is handed over again. Writing a mapfile makes the whole text first, so a project without a
mapfile leaves the sink as it was; after that the bytes are handed over until none is left or the
sink refuses. Only a complete mapfile is flushed.
-/

namespace Carta

/-- A sink for bytes. -/
structure Sink where
  bytes : List UInt8 := []
  /-- The most bytes that one call takes. -/
  chunk : Option Nat := none
  /-- The most bytes that the sink holds. -/
  limit : Option Nat := none
  /-- How many bytes the call with a number takes, of the most that it can take. -/
  portion : Nat → Nat → Nat := fun _ most => most
  /-- The number of calls that the sink has had. -/
  calls : Nat := 0
  flushes : Nat := 0

namespace Sink

/-- The number of bytes that the sink takes of `count` in one call. A full sink takes none. -/
def accepts (sink : Sink) (count : Nat) : Except Storage.Fault Nat :=
  let room := sink.limit.map (· - sink.bytes.length)
  if room = some 0 then .error .storageFull
  else
    let most := min (min count (sink.chunk.getD count)) (room.getD count)
    let taken := min most (sink.portion sink.calls most)
    if taken = 0 then .error .writeZero else .ok taken

/-- The number of bytes taken is positive. -/
theorem pos_of_accepts {sink : Sink} {count taken : Nat} (h : sink.accepts count = .ok taken) :
    0 < taken := by
  simp only [accepts] at h
  split at h
  next => simp at h
  next =>
    split at h
    next => simp at h
    next hz =>
      obtain rfl := Except.ok.inj h
      omega

/-- The sink after one more call. -/
def called (sink : Sink) : Sink :=
  { sink with calls := sink.calls + 1 }

/-- Hands bytes over until none is left or the sink refuses. -/
def writeAll (sink : Sink) (bytes : List UInt8) : Except Storage.Fault Unit × Sink :=
  match bytes with
  | [] => (.ok (), sink)
  | b :: rest =>
    match _h : sink.accepts (rest.length + 1) with
    | .error fault => (.error fault, sink.called)
    | .ok taken =>
      writeAll { sink.called with bytes := sink.bytes ++ (b :: rest).take taken }
        ((b :: rest).drop taken)
termination_by bytes.length
decreasing_by
  have := pos_of_accepts _h
  simp only [List.length_drop, List.length_cons]
  omega

/-- The sink after a flush. -/
def flush (sink : Sink) : Sink :=
  { sink with flushes := sink.flushes + 1 }

end Sink

/-- Writes the mapfile of a project into a sink. -/
def Mapfile.write (options : Mapfile.Options) (document : Project.Document) (sink : Sink) :
    Except Error Unit × Sink :=
  match Mapfile.render options document with
  | .error error => (.error error, sink)
  | .ok text =>
    match sink.writeAll (Text.Utf8.encode text) with
    | (.error fault, sink) => (.error (.storage fault), sink)
    | (.ok (), sink) => (.ok (), sink.flush)

end Carta
